import Mathlib.Data.List.Range
import SorobanKit.CommonPages
import SorobanKit.HostInteger
import SorobanKit.HostRuns

set_option autoImplicit false

/-!
# Pages read while their source changes

Contracts number what they keep from zero, and page through it by number. A caller that reads one
page after the other sees the source as it is at each call, and other calls may come in between.
Whatever they do, the numbers read are ascending, and what is there at every call is read once.
-/
namespace SorobanKit.CommonPageReads
open CommonPages HostInteger HostRuns

/-- How many numbers are given out, and what is found at a number. -/
structure View (T : Type) where
  count : ℕ
  find : ℕ → Option T

namespace View
variable {T : Type} (v : View T)

def advance (c : ℕ) : Option ℕ :=
  if saturatingAddU32 c 1 < v.count then some (saturatingAddU32 c 1) else none

def fetch (c : ℕ) : Option T := if v.count ≤ c then none else v.find c

/-- One call, with fuel for every number that is left. -/
def page (cursor limit maxPageSize : ℕ) : Option (Page T ℕ) :=
  paginate v.advance v.fetch (v.count + 2) cursor limit maxPageSize

end View

section Reads
variable {σ ι κ ε T : Type}

/-- A call for a page with a query of its own, and what was invoked since the one before it. -/
structure PageRead (ι κ : Type) where
  invoked : List ι
  query : κ
  limit : ℕ

/-- A page, and the state it was read in. -/
structure Reading (σ κ T : Type) where
  state : σ
  query : κ
  page : Page T ℕ

/-- Calls for pages in a run, each from where the one before it stopped. -/
def readAlong (exec : ι → σ → Except ε σ) (view : σ → κ → View T) (maxPageSize : ℕ) :
    σ → ℕ → List (PageRead ι κ) → Option (List (Reading σ κ T))
  | _, _, [] => some []
  | s, cursor, r :: reads =>
    ((view (run exec s r.invoked) r.query).page cursor r.limit maxPageSize).bind fun page =>
      match page.nextCursor with
      | none => some [⟨run exec s r.invoked, r.query, page⟩]
      | some next =>
        (readAlong exec view maxPageSize (run exec s r.invoked) next reads).map
          (⟨run exec s r.invoked, r.query, page⟩ :: ·)

end Reads

section Page
variable {T : Type} {v : View T} {c : ℕ}

theorem advance_of_lt (hcount : v.count ≤ u32Max) (h : c + 1 < v.count) :
    v.advance c = some (c + 1) := by
  have hsum : saturatingAddU32 c 1 = c + 1 := by
    unfold saturatingAddU32
    omega
  unfold View.advance
  rw [hsum, if_pos h]

theorem advance_of_le (hcount : v.count ≤ u32Max) (h : v.count ≤ c + 1) : v.advance c = none := by
  have hsum : ¬ saturatingAddU32 c 1 < v.count := by
    unfold saturatingAddU32
    omega
  unfold View.advance
  rw [if_neg hsum]

theorem fetch_of_lt (h : c < v.count) : v.fetch c = v.find c := if_neg (Nat.not_le.mpr h)

theorem filterMap_range'_succ (f : ℕ → Option T) (c n : ℕ) :
    (List.range' c (n + 1)).filterMap f =
      (f c).toList ++ (List.range' (c + 1) n).filterMap f := by
  rw [List.range'_succ]
  exact filterMap_cons_toList c _

/-- Where a page that begins at `c` stops, and what it has. -/
structure Segment (v : View T) (c stop : ℕ) (page : Page T ℕ) : Prop where
  onward : c ≤ stop
  items : page.items = (List.range' c (stop - c)).filterMap v.find
  next : page.nextCursor = if stop < v.count then some stop else none

theorem fillPage_segment (hcount : v.count ≤ u32Max) (capped fuel : ℕ) (items : List T)
    (hc : c < v.count) (hfuel : v.count - c + 1 ≤ fuel) :
    ∃ stop, c ≤ stop ∧ stop ≤ v.count ∧
      fillPage v.advance v.fetch capped fuel (some c) items =
        some ⟨items ++ (List.range' c (stop - c)).filterMap v.find,
          if stop < v.count then some stop else none⟩ := by
  induction fuel generalizing c items with
  | zero => omega
  | succ fuel ih =>
    by_cases hfull : capped ≤ items.length
    · refine ⟨c, le_refl c, hc.le, ?_⟩
      rw [Nat.sub_self, if_pos hc, List.range'_zero, List.filterMap_nil, List.append_nil]
      exact if_pos hfull
    · rw [fillPage_next (Nat.not_le.mp hfull), fetch_of_lt hc]
      by_cases hlast : c + 1 < v.count
      · rw [advance_of_lt hcount hlast]
        obtain ⟨stop, honward, hstop, hpage⟩ :=
          ih (items ++ (v.find c).toList) hlast (by omega)
        refine ⟨stop, by omega, hstop, ?_⟩
        have hlength : stop - c = stop - (c + 1) + 1 := by omega
        rw [hpage, hlength, filterMap_range'_succ, List.append_assoc]
      · rw [advance_of_le hcount (Nat.not_lt.mp hlast)]
        have hstop : v.count = c + 1 := by omega
        refine ⟨v.count, hc.le, le_refl _, ?_⟩
        have hlength : v.count - c = 0 + 1 := by omega
        rw [hlength, filterMap_range'_succ, if_neg (lt_irrefl _)]
        cases fuel with
        | zero => omega
        | succ fuel =>
          rw [List.range'_zero, List.filterMap_nil, List.append_nil]
          rfl

theorem page_segment (hcount : v.count ≤ u32Max) (c limit : ℕ) {maxPageSize : ℕ}
    (hmax : 1 ≤ maxPageSize) :
    ∃ page stop, v.page c limit maxPageSize = some page ∧ Segment v c stop page ∧
      (c < v.count → c < stop) := by
  have hclamp : clampLimit limit maxPageSize = some (max 1 (min limit maxPageSize)) :=
    if_neg (Nat.not_lt.mpr hmax)
  have hroom : ([] : List T).length < max 1 (min limit maxPageSize) :=
    Nat.lt_of_lt_of_le Nat.one_pos (le_max_left _ _)
  have hfirst : v.page c limit maxPageSize =
      fillPage v.advance v.fetch (max 1 (min limit maxPageSize)) (v.count + 1) (v.advance c)
        (v.fetch c).toList := by
    unfold View.page paginate
    rw [hclamp]
    exact fillPage_next hroom
  rw [hfirst]
  by_cases hc : c < v.count
  · rw [fetch_of_lt hc]
    by_cases hlast : c + 1 < v.count
    · rw [advance_of_lt hcount hlast]
      obtain ⟨stop, honward, _, hpage⟩ :=
        fillPage_segment hcount (max 1 (min limit maxPageSize)) (v.count + 1) (v.find c).toList hlast
          (by omega)
      have hlength : stop - c = stop - (c + 1) + 1 := by omega
      refine ⟨_, stop, hpage, ⟨by omega, ?_, rfl⟩, fun _ => honward⟩
      rw [hlength, filterMap_range'_succ]
    · rw [advance_of_le hcount (Nat.not_lt.mp hlast)]
      refine ⟨_, c + 1, rfl, ⟨Nat.le_succ c, ?_, (if_neg hlast).symm⟩, fun _ => Nat.lt_succ_self c⟩
      rw [Nat.add_sub_cancel_left, filterMap_range'_succ, List.range'_zero, List.filterMap_nil,
        List.append_nil]
  · have hfetch : v.fetch c = none := if_pos (Nat.not_lt.mp hc)
    rw [hfetch, advance_of_le hcount (by omega)]
    refine ⟨_, c, rfl, ⟨le_refl c, ?_, (if_neg hc).symm⟩, fun h => absurd h hc⟩
    rw [Nat.sub_self, List.range'_zero, List.filterMap_nil]
    rfl

end Page

section Readings
variable {σ ι κ ε T : Type} {exec : ι → σ → Except ε σ} {view : σ → κ → View T} {key : T → ℕ}
  {maxPageSize : ℕ}

/-- A view whose items are below its count and know their numbers. -/
structure View.Numbered (key : T → ℕ) (v : View T) : Prop where
  bounded : v.count ≤ u32Max
  below : ∀ c x, v.find c = some x → c < v.count
  named : ∀ c x, v.find c = some x → key x = c

/-- What the calls read: numbers ascend, an item is what its own call found at its number, and if
    the end was reached, every number that each call found is among them. -/
structure ReadOnce (view : σ → κ → View T) (key : T → ℕ) (start : ℕ)
    (readings : List (Reading σ κ T)) : Prop where
  ascending : ((readings.flatMap fun r => r.page.items).map key).Pairwise (· < ·)
  found : ∀ r ∈ readings, ∀ x ∈ r.page.items,
    start ≤ key x ∧ (view r.state r.query).find (key x) = some x
  complete : (∃ r ∈ readings, r.page.nextCursor = none) → ∀ c, start ≤ c →
    (∀ r ∈ readings, ((view r.state r.query).find c).isSome) →
    ∃ r ∈ readings, ∃ x ∈ r.page.items, key x = c

theorem segment_keys {v : View T} {c stop : ℕ} {page : Page T ℕ} (hv : v.Numbered key)
    (h : Segment v c stop page) :
    (page.items.map key).Pairwise (· < ·) ∧
      ∀ x ∈ page.items, c ≤ key x ∧ key x < stop ∧ v.find (key x) = some x := by
  have hitems : ∀ x ∈ page.items, c ≤ key x ∧ key x < stop ∧ v.find (key x) = some x := by
    intro x hx
    rw [h.items, List.mem_filterMap] at hx
    obtain ⟨d, hd, hfound⟩ := hx
    rw [List.mem_range'_1] at hd
    rw [hv.named d x hfound]
    have honward := h.onward
    exact ⟨hd.1, by omega, hfound⟩
  refine ⟨?_, hitems⟩
  rw [h.items, List.pairwise_map, List.pairwise_filterMap]
  refine (List.pairwise_lt_range' : (List.range' c (stop - c)).Pairwise (· < ·)).imp ?_
  intro a b hlt x hx y hy
  rw [hv.named a x hx, hv.named b y hy]
  exact hlt

theorem readOnce_nil (c : ℕ) : ReadOnce view key c [] := by
  refine ⟨List.Pairwise.nil, ?_, ?_⟩
  · intro r hr
    cases hr
  · rintro ⟨r, hr, _⟩
    cases hr

/-- One call in front of calls that go on where it stopped. -/
theorem ReadOnce.cons {s : σ} {query : κ} {c stop : ℕ} {page : Page T ℕ}
    {readings : List (Reading σ κ T)} (hv : (view s query).Numbered key)
    (hsegment : Segment (view s query) c stop page) (hnext : page.nextCursor = some stop)
    (h : ReadOnce view key stop readings) : ReadOnce view key c (⟨s, query, page⟩ :: readings) := by
  obtain ⟨hascending, hitems⟩ := segment_keys hv hsegment
  refine ⟨?_, ?_, ?_⟩
  · rw [List.flatMap_cons, List.map_append, List.pairwise_append]
    refine ⟨hascending, h.ascending, ?_⟩
    intro a ha b hb
    rw [List.mem_map] at ha hb
    obtain ⟨x, hx, rfl⟩ := ha
    obtain ⟨y, hy, rfl⟩ := hb
    obtain ⟨r, hr, hyr⟩ := List.mem_flatMap.mp hy
    have hbelow := (hitems x hx).2.1
    have habove := (h.found r hr y hyr).1
    omega
  · intro r hr x hx
    rcases List.mem_cons.mp hr with rfl | hr
    · exact ⟨(hitems x hx).1, (hitems x hx).2.2⟩
    · exact ⟨hsegment.onward.trans (h.found r hr x hx).1, (h.found r hr x hx).2⟩
  · rintro ⟨r, hr, hend⟩ d hd hfound
    obtain ⟨hhere, hlater⟩ := List.forall_mem_cons.mp hfound
    by_cases hbelow : d < stop
    · obtain ⟨x, hx⟩ := Option.isSome_iff_exists.mp hhere
      refine ⟨_, List.mem_cons_self, x, ?_, hv.named d x hx⟩
      rw [hsegment.items, List.mem_filterMap]
      refine ⟨d, List.mem_range'_1.mpr ?_, hx⟩
      omega
    · rcases List.mem_cons.mp hr with rfl | hr
      · rw [hnext] at hend
        cases hend
      · obtain ⟨r, hr, x, hx, hkey⟩ := h.complete ⟨r, hr, hend⟩ d (Nat.not_lt.mp hbelow) hlater
        exact ⟨r, List.mem_cons_of_mem _ hr, x, hx, hkey⟩

theorem readOnce_last {s : σ} {query : κ} {c stop : ℕ} {page : Page T ℕ}
    (hv : (view s query).Numbered key) (hsegment : Segment (view s query) c stop page)
    (hend : (view s query).count ≤ stop) : ReadOnce view key c [⟨s, query, page⟩] := by
  obtain ⟨hascending, hitems⟩ := segment_keys hv hsegment
  refine ⟨?_, ?_, ?_⟩
  · rw [List.flatMap_singleton]
    exact hascending
  · intro r hr x hx
    obtain rfl := List.mem_singleton.mp hr
    exact ⟨(hitems x hx).1, (hitems x hx).2.2⟩
  · rintro - d hd hfound
    obtain ⟨x, hx⟩ := Option.isSome_iff_exists.mp (hfound _ List.mem_cons_self)
    refine ⟨_, List.mem_cons_self, x, ?_, hv.named d x hx⟩
    have hbelow := hv.below d x hx
    rw [hsegment.items, List.mem_filterMap]
    refine ⟨d, List.mem_range'_1.mpr ?_, hx⟩
    omega

/-- The calls return, whatever was invoked in between. -/
theorem readAlong_reads {I : σ → Prop} (hstep : ∀ s i t, I s → exec i s = .ok t → I t)
    (hview : ∀ s query, I s → (view s query).Numbered key) (hmax : 1 ≤ maxPageSize) {s : σ}
    (hs : I s) (c : ℕ) (reads : List (PageRead ι κ)) :
    ∃ readings, readAlong exec view maxPageSize s c reads = some readings ∧
      ReadOnce view key c readings := by
  induction reads generalizing s c with
  | nil => exact ⟨[], rfl, readOnce_nil c⟩
  | cons r reads ih =>
    have hnow := run_invariant hstep hs r.invoked
    have hv := hview _ r.query hnow
    obtain ⟨page, stop, hpage, hsegment, _⟩ := page_segment hv.bounded c r.limit hmax
    have hnext := hsegment.next
    unfold readAlong
    rw [hpage, Option.bind_some]
    by_cases hend : stop < (view (run exec s r.invoked) r.query).count
    · rw [if_pos hend] at hnext
      obtain ⟨readings, hreadings, honce⟩ := ih hnow stop
      refine ⟨_, ?_, honce.cons hv hsegment hnext⟩
      simp only [hnext, hreadings, Option.map_some]
    · rw [if_neg hend] at hnext
      refine ⟨_, ?_, readOnce_last hv hsegment (Nat.not_lt.mp hend)⟩
      rw [hnext]

/-- With more calls than there are numbers left in the end, the end is reached. -/
theorem readAlong_ends {I : σ → Prop} (hstep : ∀ s i t, I s → exec i s = .ok t → I t)
    (hview : ∀ s query, I s → (view s query).Numbered key) (hmax : 1 ≤ maxPageSize) {s : σ}
    (hs : I s) {c n : ℕ} {reads : List (PageRead ι κ)} {readings : List (Reading σ κ T)}
    (hcounts : ∀ r ∈ readings, (view r.state r.query).count ≤ n) (hc : c ≤ n)
    (hcalls : n < c + reads.length)
    (h : readAlong exec view maxPageSize s c reads = some readings) :
    ∃ r ∈ readings, r.page.nextCursor = none := by
  induction reads generalizing s c readings with
  | nil =>
    rw [List.length_nil] at hcalls
    omega
  | cons r reads ih =>
    have hnow := run_invariant hstep hs r.invoked
    have hv := hview _ r.query hnow
    obtain ⟨page, stop, hpage, hsegment, hpast⟩ := page_segment hv.bounded c r.limit hmax
    have hnext := hsegment.next
    have honward := hsegment.onward
    unfold readAlong at h
    rw [hpage, Option.bind_some] at h
    by_cases hend : stop < (view (run exec s r.invoked) r.query).count
    · rw [if_pos hend] at hnext
      simp only [hnext, Option.map_eq_some_iff] at h
      obtain ⟨later, hlater, rfl⟩ := h
      obtain ⟨hhere, hcounts⟩ := List.forall_mem_cons.mp hcounts
      have hstop : c < stop := hpast (Nat.lt_of_le_of_lt honward hend)
      rw [List.length_cons] at hcalls
      have hbound : stop ≤ n := hend.le.trans hhere
      obtain ⟨r, hr, hnone⟩ := ih hnow hcounts hbound (by omega) hlater
      exact ⟨r, List.mem_cons_of_mem _ hr, hnone⟩
    · rw [if_neg hend] at hnext
      rw [hnext] at h
      cases h
      exact ⟨_, List.mem_cons_self, hnext⟩

/-- What holds along the run holds where the pages are read, and the queries are those asked. -/
theorem readAlong_mem {J : σ → Prop} (hstep : ∀ s i t, J s → exec i s = .ok t → J t) {s : σ}
    (hs : J s) {c : ℕ} {reads : List (PageRead ι κ)} {readings : List (Reading σ κ T)}
    (h : readAlong exec view maxPageSize s c reads = some readings) :
    ∀ r ∈ readings, J r.state ∧ ∃ read ∈ reads, r.query = read.query := by
  induction reads generalizing s c readings with
  | nil =>
    cases h
    simp
  | cons read reads ih =>
    have hnow := run_invariant hstep hs read.invoked
    unfold readAlong at h
    rw [Option.bind_eq_some_iff] at h
    obtain ⟨page, _, h⟩ := h
    cases hnext : page.nextCursor with
    | none =>
      simp only [hnext, Option.some_inj] at h
      subst h
      intro r hr
      obtain rfl := List.mem_singleton.mp hr
      exact ⟨hnow, read, List.mem_cons_self, rfl⟩
    | some next =>
      simp only [hnext, Option.map_eq_some_iff] at h
      obtain ⟨later, hlater, rfl⟩ := h
      intro r hr
      rcases List.mem_cons.mp hr with rfl | hr
      · exact ⟨hnow, read, List.mem_cons_self, rfl⟩
      · obtain ⟨hstate, asked, hasked, hquery⟩ := ih hnow hlater r hr
        exact ⟨hstate, asked, List.mem_cons_of_mem _ hasked, hquery⟩

end Readings

end SorobanKit.CommonPageReads
