import SorobanKit.HostInvocation
import SorobanKit.HostInteger
import SorobanKit.HostRuns
import SorobanKit.HostBalances
import SorobanKit.TokenStorage
import SorobanKit.TokenAllowance
import SorobanKit.TokenContract
import SorobanKit.TokenSupply
import SorobanKit.TokenMoney
import SorobanKit.TokenConservation
import SorobanKit.TokenAllowanceBound
import SorobanKit.TokenOffices
import SorobanKit.TokenAdmin
import SorobanKit.TokenPermits
import SorobanKit.TokenAdjustments
import SorobanKit.TokenSnapshots
import SorobanKit.TokenBatches
import SorobanKit.EscrowLifecycle
import SorobanKit.EscrowContract
import SorobanKit.EscrowBasket
import SorobanKit.EscrowCommittee
import SorobanKit.EscrowKept
import SorobanKit.EscrowRefund
import SorobanKit.MultisigContract
import SorobanKit.MultisigSigners
import SorobanKit.MultisigQuorum
import SorobanKit.MultisigProposals
import SorobanKit.MultisigLimits
import SorobanKit.TimelockContract
import SorobanKit.TimelockTranches
import SorobanKit.TimelockDeposits
import SorobanKit.AuctionContract
import SorobanKit.AuctionSolvency
import SorobanKit.HostHashQueue
import SorobanKit.MerkleProof
import SorobanKit.HostTransfers
import SorobanKit.HostShelves
import SorobanKit.HostSearch
import SorobanKit.CommonMath
import SorobanKit.StakingContract
import SorobanKit.StakingMoves
import SorobanKit.StakingCustody
import SorobanKit.StakingEmission
import SorobanKit.NftContract
import SorobanKit.NftEnumeration
import SorobanKit.CrowdfundContract
import SorobanKit.CrowdfundCustody
import SorobanKit.CrowdfundOutcome
import SorobanKit.CrowdfundMilestones
import SorobanKit.CrowdfundReserve
import SorobanKit.CrowdfundRecovery
import SorobanKit.AirdropContract
import SorobanKit.AirdropVesting
import SorobanKit.AirdropRounds
import SorobanKit.WrappedTokenContract
import SorobanKit.WrappedTokenMoves
import SorobanKit.WrappedTokenPeg
import SorobanKit.WrappedTokenLimits
import SorobanKit.SubscriptionContract
import SorobanKit.SubscriptionMoves
import SorobanKit.SubscriptionBilling
import SorobanKit.SubscriptionEscrow
import SorobanKit.OracleContract
import SorobanKit.OracleBreaker
import SorobanKit.BallotContract
import SorobanKit.BallotMoves
import SorobanKit.BallotVoters
import SorobanKit.BallotTallies
import SorobanKit.BallotCertification
import SorobanKit.BallotFinality
import SorobanKit.DaoContract
import SorobanKit.DaoMoves
import SorobanKit.DaoVotes
import SorobanKit.DaoCustody
import SorobanKit.DaoLifecycle
import SorobanKit.DaoBonds
import SorobanKit.DaoExecution
import SorobanKit.MarketplaceContract
import SorobanKit.MarketplaceMoves
import SorobanKit.MarketplaceEscrow
import SorobanKit.MarketplacePayout
import SorobanKit.VestingContract
import SorobanKit.VestingMoves
import SorobanKit.VestingCourse
import SorobanKit.VestingRevocation
import SorobanKit.SwapContract
import SorobanKit.SwapMoves
import SorobanKit.SwapEscrow
import SorobanKit.SwapGuards
import SorobanKit.AuctionBidding
import SorobanKit.AuctionDutch
import SorobanKit.DaoDelegation
import SorobanKit.DaoPayloads
import SorobanKit.HostChains
import SorobanKit.StakingAccrual
import SorobanKit.VestingSchedules
import SorobanKit.MarketplaceShares
import SorobanKit.MarketplaceDutch
import SorobanKit.HostMaxima
import SorobanKit.MarketplaceCounterOffers
import SorobanKit.NftTransfer
import SorobanKit.CrowdfundTiers
import SorobanKit.HostBytes
import SorobanKit.AirdropEncoding
import SorobanKit.WrappedTokenWindows
import SorobanKit.SubscriptionProration
import SorobanKit.HostSorting
import SorobanKit.OraclePublishers
import SorobanKit.OracleMedian
import SorobanKit.HostFolds
import SorobanKit.OracleMerging
import SorobanKit.CommonRounding
import SorobanKit.CommonRoots
import SorobanKit.CommonNewton
import SorobanKit.CommonLimiter
import SorobanKit.CommonPages
import SorobanKit.SwapFees
import SorobanKit.SwapFills
import SorobanKit.BallotBinding
import SorobanKit.HostMeans
import SorobanKit.OracleAverages
import SorobanKit.LotteryContract
import SorobanKit.LotteryDraw
import SorobanKit.LotteryPayout
import SorobanKit.LotteryOutcome
import SorobanKit.HostServers
import SorobanKit.TokenHoldings
import SorobanKit.TokenServer
import SorobanKit.EscrowOnToken
import SorobanKit.EscrowOnTokenRefund
import SorobanKit.TimelockStaking
import SorobanKit.CommonPageReads
import SorobanKit.SwapPages
import SorobanKit.AuctionDelivery
import SorobanKit.AuctionOnNft
import SorobanKit.DaoPages
import SorobanKit.SwapBaskets
import SorobanKit.CommonUpgrade
import SorobanKit.DaoChoices
import SorobanKit.EscrowUpgrade
import SorobanKit.TokenUpgrade
import SorobanKit.WrappedTokenOnToken
import SorobanKit.MultisigOnToken
import SorobanKit.OracleBonds
import SorobanKit.OracleBondsOnToken
import SorobanKit.CommonFixedPoint
import SorobanKit.DaoOnToken
