import Mathlib.Data.List.Basic
import Mathlib.Data.Nat.Notation

set_option autoImplicit false

/-!
# Pages of a sequence

`paginate` walks along a chain of cursors, which the caller gives by a function to the next one, and
stops when its page is full or the chain ends. A chain need not end, so the loop takes fuel, and a
call without a result is `none`. So is one whose largest page size is zero, which panics.
-/
namespace SorobanKit.CommonPages

structure Page (T C : Type) where
  items : List T
  nextCursor : Option C
  deriving DecidableEq, Repr

/-- `limit.clamp(1, max_page_size)` -/
def clampLimit (limit maxPageSize : ℕ) : Option ℕ :=
  if maxPageSize < 1 then none else some (max 1 (min limit maxPageSize))

section Pages
variable {T C : Type} (advanceFn : C → Option C) (fetchFn : C → Option T)

/-- The loop, with the cursor it is at. -/
def fillPage (capped : ℕ) : ℕ → Option C → List T → Option (Page T C)
  | 0, _, _ => none
  | _ + 1, none, items => some ⟨items, none⟩
  | fuel + 1, some c, items =>
    if capped ≤ items.length then some ⟨items, some c⟩
    else fillPage capped fuel (advanceFn c) (items ++ (fetchFn c).toList)

def paginate (fuel : ℕ) (cursor : C) (limit maxPageSize : ℕ) : Option (Page T C) := do
  let capped ← clampLimit limit maxPageSize
  fillPage advanceFn fetchFn capped fuel (some cursor) []

/-- Calls of `paginate`, each from where the one before it stopped, until one reaches the end. The
    limits of the calls may differ. -/
def readPages (fuel maxPageSize : ℕ) : (ℕ → ℕ) → ℕ → C → Option (List (Page T C))
  | _, 0, _ => none
  | limits, calls + 1, cursor => do
    let page ← paginate advanceFn fetchFn fuel cursor (limits 0) maxPageSize
    match page.nextCursor with
    | none => return [page]
    | some cursor =>
      let pages ← readPages fuel maxPageSize (fun i => limits (i + 1)) calls cursor
      return page :: pages

end Pages

/-- The cursors after the first one, up to the end of the chain. -/
def ChainFrom {C : Type} (advanceFn : C → Option C) : C → List C → Prop
  | c, [] => advanceFn c = none
  | c, d :: rest => advanceFn c = some d ∧ ChainFrom advanceFn d rest

section Completeness
variable {T C : Type} {advanceFn : C → Option C} {fetchFn : C → Option T} {c : C} {rest : List C}
  {items : List T} {capped fuel limit maxPageSize : ℕ}

/-- A page has the items of all cursors, or of those before the one it stopped at, behind which there
    are fewer than `left` others. -/
def Covers (advanceFn : C → Option C) (fetchFn : C → Option T) (cursors : List C) (left : ℕ)
    (taken : List T) : Option C → Prop
  | none => cursors.filterMap fetchFn = taken
  | some d => ∃ later, ChainFrom advanceFn d later ∧ later.length < left ∧
      cursors.filterMap fetchFn = taken ++ (d :: later).filterMap fetchFn

theorem filterMap_cons_toList (c : C) (cursors : List C) :
    (c :: cursors).filterMap fetchFn = (fetchFn c).toList ++ cursors.filterMap fetchFn := by
  cases h : fetchFn c with
  | none => rw [List.filterMap_cons_none h, Option.toList_none, List.nil_append]
  | some item => rw [List.filterMap_cons_some h, Option.toList_some, List.singleton_append]

theorem Covers.cons {cursors : List C} {left : ℕ} {taken : List T} {next : Option C}
    (h : Covers advanceFn fetchFn cursors left taken next) (c : C) :
    Covers advanceFn fetchFn (c :: cursors) left ((fetchFn c).toList ++ taken) next := by
  cases next with
  | none =>
    have htaken : cursors.filterMap fetchFn = taken := h
    rw [← htaken]
    exact filterMap_cons_toList c cursors
  | some d =>
    obtain ⟨later, hchain, hlength, htaken⟩ := h
    refine ⟨later, hchain, hlength, ?_⟩
    rw [filterMap_cons_toList, htaken, List.append_assoc]

theorem Covers.mono {cursors : List C} {left left' : ℕ} {taken : List T} {next : Option C}
    (h : Covers advanceFn fetchFn cursors left taken next) (hle : left ≤ left') :
    Covers advanceFn fetchFn cursors left' taken next := by
  cases next with
  | none => exact h
  | some d =>
    obtain ⟨later, hchain, hlength, htaken⟩ := h
    exact ⟨later, hchain, Nat.lt_of_lt_of_le hlength hle, htaken⟩

theorem length_toList_le (item : Option T) : item.toList.length ≤ 1 := by
  cases item with
  | none => exact Nat.zero_le 1
  | some item => exact Nat.le_refl 1

theorem fillPage_next (hroom : items.length < capped) :
    fillPage advanceFn fetchFn capped (fuel + 1) (some c) items =
      fillPage advanceFn fetchFn capped fuel (advanceFn c) (items ++ (fetchFn c).toList) :=
  if_neg (Nat.not_le.mpr hroom)

theorem append_fits (hroom : items.length < capped) (item : Option T) :
    (items ++ item.toList).length ≤ capped := by
  have hitem := length_toList_le item
  rw [List.length_append]
  omega

theorem fillPage_covers (hchain : ChainFrom advanceFn c rest) (hfuel : rest.length + 2 ≤ fuel)
    (hitems : items.length ≤ capped) :
    ∃ taken next, fillPage advanceFn fetchFn capped fuel (some c) items =
        some ⟨items ++ taken, next⟩ ∧ (items ++ taken).length ≤ capped ∧
      Covers advanceFn fetchFn (c :: rest) (rest.length + 1) taken next := by
  induction rest generalizing c items fuel with
  | nil =>
    obtain ⟨spare, rfl⟩ := Nat.exists_eq_add_of_le' hfuel
    have hend : advanceFn c = none := hchain
    by_cases hfull : capped ≤ items.length
    · refine ⟨[], some c, ?_, ?_, [], hchain, Nat.one_pos, rfl⟩
      · rw [List.append_nil]
        exact if_pos hfull
      · rw [List.append_nil]
        exact hitems
    · have hroom := Nat.not_le.mp hfull
      refine ⟨(fetchFn c).toList, none, ?_, append_fits hroom _, ?_⟩
      · change fillPage advanceFn fetchFn capped (spare + 1 + 1) (some c) items = _
        rw [fillPage_next hroom, hend]
        rfl
      · change [c].filterMap fetchFn = _
        rw [filterMap_cons_toList, List.filterMap_nil, List.append_nil]
  | cons d rest ih =>
    obtain ⟨spare, rfl⟩ := Nat.exists_eq_add_of_le' hfuel
    by_cases hfull : capped ≤ items.length
    · refine ⟨[], some c, ?_, ?_, d :: rest, hchain, Nat.lt_succ_self _, rfl⟩
      · rw [List.append_nil]
        exact if_pos hfull
      · rw [List.append_nil]
        exact hitems
    · have hroom := Nat.not_le.mp hfull
      obtain ⟨hnext, hchain⟩ := hchain
      have hfuel' : rest.length + 2 ≤ spare + (rest.length + 2) := Nat.le_add_left _ _
      rcases ih hchain hfuel' (append_fits hroom (fetchFn c)) with
        ⟨taken, next, hpage, hlength, hcovers⟩
      rw [List.append_assoc] at hpage hlength
      refine ⟨(fetchFn c).toList ++ taken, next, ?_, hlength, ?_⟩
      · change fillPage advanceFn fetchFn capped (spare + (rest.length + 2) + 1) (some c) items = _
        rw [fillPage_next hroom, hnext]
        exact hpage
      · exact (hcovers.cons c).mono (Nat.le_succ _)

theorem paginate_covers (fetchFn : C → Option T) (limit : ℕ) (hchain : ChainFrom advanceFn c rest)
    (hfuel : rest.length + 2 ≤ fuel) (hmax : 1 ≤ maxPageSize) :
    ∃ taken next, paginate advanceFn fetchFn fuel c limit maxPageSize = some ⟨taken, next⟩ ∧
      taken.length ≤ min (max limit 1) maxPageSize ∧
      Covers advanceFn fetchFn (c :: rest) rest.length taken next := by
  have hclamp : clampLimit limit maxPageSize = some (min (max limit 1) maxPageSize) := by
    unfold clampLimit
    rw [if_neg (by omega)]
    congr 1
    omega
  have hroom : ([] : List T).length < min (max limit 1) maxPageSize := by
    rw [List.length_nil]
    omega
  obtain ⟨spare, rfl⟩ := Nat.exists_eq_add_of_le' hfuel
  unfold paginate
  rw [hclamp]
  change ∃ taken next, fillPage advanceFn fetchFn _ (spare + rest.length + 1 + 1) (some c) [] = _ ∧ _
  rw [fillPage_next hroom, List.nil_append]
  cases rest with
  | nil =>
    have hend : advanceFn c = none := hchain
    refine ⟨(fetchFn c).toList, none, ?_, append_fits hroom _, ?_⟩
    · rw [hend]
      rfl
    · change [c].filterMap fetchFn = _
      rw [filterMap_cons_toList, List.filterMap_nil, List.append_nil]
  | cons d rest =>
    obtain ⟨hnext, hchain⟩ := hchain
    rw [hnext]
    have hfuel' : rest.length + 2 ≤ spare + (d :: rest).length + 1 := by
      rw [List.length_cons]
      omega
    rcases fillPage_covers hchain hfuel' (append_fits hroom (fetchFn c)) with
      ⟨taken, next, hpage, hlength, hcovers⟩
    exact ⟨(fetchFn c).toList ++ taken, next, hpage, hlength, hcovers.cons c⟩

/-- Following the pages to the end gives every item of the chain once and in order. -/
theorem readPages_complete (fetchFn : C → Option T) (limits : ℕ → ℕ)
    (hchain : ChainFrom advanceFn c rest) (hmax : 1 ≤ maxPageSize) {calls : ℕ}
    (hfuel : rest.length + 2 ≤ fuel) (hcalls : rest.length + 1 ≤ calls) :
    ∃ pages, readPages advanceFn fetchFn fuel maxPageSize limits calls c = some pages ∧
      pages.flatMap Page.items = (c :: rest).filterMap fetchFn ∧
      ∀ i page, pages[i]? = some page →
        page.items.length ≤ min (max (limits i) 1) maxPageSize := by
  induction calls generalizing c rest limits with
  | zero => omega
  | succ calls ih =>
    rcases paginate_covers fetchFn (limits 0) hchain hfuel hmax with
      ⟨taken, next, hpage, hlength, hcovers⟩
    unfold readPages
    rw [hpage]
    cases next with
    | none =>
      refine ⟨[⟨taken, none⟩], rfl, ?_, ?_⟩
      · have hall : (c :: rest).filterMap fetchFn = taken := hcovers
        rw [hall]
        exact List.append_nil taken
      · intro i page hget
        cases i with
        | zero =>
          cases hget
          exact hlength
        | succ i => cases hget
    | some d =>
      obtain ⟨later, hlater, hfewer, hall⟩ := hcovers
      rcases ih (fun i => limits (i + 1)) hlater (by omega) (by omega) with
        ⟨pages, hpages, hitems, hsizes⟩
      refine ⟨⟨taken, some d⟩ :: pages, ?_, ?_, ?_⟩
      · change (do
          let pages ← readPages advanceFn fetchFn fuel maxPageSize (fun i => limits (i + 1)) calls d
          return (⟨taken, some d⟩ :: pages : List (Page T C))) = _
        rw [hpages]
        rfl
      · rw [List.flatMap_cons, hitems, hall]
      · intro i page hget
        cases i with
        | zero =>
          cases hget
          exact hlength
        | succ i => exact hsizes i page hget

end Completeness

/-- The even numbers below five, with limits of none, one and two. -/
theorem readPages_complete_demo :
    readPages (fun c => if c < 4 then some (c + 1) else none)
      (fun c => if c % 2 = 0 then some c else none) 6 2 id 5 0 =
        some [⟨[0], some 1⟩, ⟨[2], some 3⟩, ⟨[4], none⟩] ∧
    ∃ pages, readPages (fun c => if c < 4 then some (c + 1) else none)
        (fun c => if c % 2 = 0 then some c else none) 6 2 id 5 0 = some pages ∧
      pages.flatMap Page.items = [0, 2, 4] := by
  have hchain : ChainFrom (fun c => if c < 4 then some (c + 1) else none) 0 [1, 2, 3, 4] :=
    ⟨rfl, rfl, rfl, rfl, rfl⟩
  refine ⟨by decide, ?_⟩
  rcases readPages_complete (fun c => if c % 2 = 0 then some c else none) id hchain
    (show 1 ≤ 2 by decide) (show 4 + 2 ≤ 6 by decide) (show 4 + 1 ≤ 5 by decide) with
    ⟨pages, hpages, hitems, _⟩
  exact ⟨pages, hpages, hitems⟩

end SorobanKit.CommonPages
