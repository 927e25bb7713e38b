import Stunks.Indexer.Sources.Types

/-! `events/index.ts`: the events of the factory, the curves and the hook. -/

namespace Stunks.Pons

open Indexer

structure TokenLaunched where
  token : Address
  curve : Address
  deployer : Address
  pairToken : Address
  launchConfigId : Int
  deriving DecidableEq

structure CurveBuy where
  buyer : Address
  recipient : Address
  quoteIn : Int
  tokensOut : Int
  fee : Int
  tax : Int
  deriving DecidableEq

structure CurveSell where
  seller : Address
  recipient : Address
  tokensIn : Int
  quoteOut : Int
  fee : Int
  tax : Int
  deriving DecidableEq

inductive PonsEvent
  | tokenLaunched (args : TokenLaunched)
  | launchSwept (token : Address)
  | launchForceSwept (token : Address)
  | poolGraduated (token : Address)
  | graduationTokensPermanentlyLocked (token : Address)
  | launchConfigAdded
  | launchConfigUpdated
  | curveBuy (args : CurveBuy)
  | curveSell (args : CurveSell)
  | curveBuyRefunded
  | feesSwept
  | buybackLocked
  | curveCompleted
  | autoGraduationFailed
  | poolRegistered
  | hookFeeCollected
  deriving DecidableEq

end Stunks.Pons
