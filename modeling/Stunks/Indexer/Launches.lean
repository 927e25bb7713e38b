import Stunks.Indexer.Phases
import Stunks.Indexer.Processors.Factory
import Stunks.Indexer.Streams
import Stunks.Lib.Concurrent

namespace Stunks.Indexer

open Database Pons

variable {H β : Type}

structure FactoryConfig (H : Type) extends IndexerConfig where
  decodePonsLog : RawLog H → Option PonsEvent
  launchExists : Address → Bool
  curveOf : Address → Address

structure FactoryStore (H : Type) where
  creators : List Address
  tokens : List Token
  window : List (RawLog H)
  /-- The logs of the blocks that the checkpoint has passed, and that no rollback has deleted. -/
  scanned : List (RawLog H)
  preparing : Option Address
  /-- Since the tick began, a launch that exists and is not stored could not be read. -/
  missed : Bool

namespace FactoryStore

def empty : FactoryStore H :=
  { creators := [], tokens := [], window := [], scanned := [], preparing := none, missed := false }

def stored (s : FactoryStore H) (token : Address) : Bool :=
  s.tokens.any fun row => row.address = token

def opened (s : FactoryStore H) : FactoryStore H := { s with missed := false }

end FactoryStore

structure FactoryReply (H : Type) where
  batch : LogBatch H
  hash : Option H
  launched : LaunchedToken Nat
  metadata : TokenMetadata
  curveState : CurveState
  number : Nat
  input : List UInt8

namespace FactoryCall

/-- An answer with which `prepareLaunch` gives the launch up. -/
def givesUp : FactoryCall β → Except Failure β → Bool
  | getLaunchedToken _, .ok launched =>
    !launched.exists_ || (parseGraduationPhase launched.phase).isNone
  | curveState _, .ok state => state.phantomQuote + state.graduationThreshold = 0
  | getLaunchedToken _, .error _ => true
  | tokenMetadata _, .error _ => true
  | curveState _, .error _ => true
  | blockTime _, .error _ => true
  | _, _ => false

end FactoryCall

namespace FactoryStore

def prepare (s : FactoryStore H) : FactoryCall β → FactoryStore H
  | .getLaunchedToken token => { s with preparing := some token }
  | _ => s

def pass (s : FactoryStore H) : StateUpdate H → FactoryStore H
  | .advance _ _ => { s with scanned := s.scanned ++ s.window }
  | _ => s

def unscan (s : FactoryStore H) : FactoryCall β → FactoryStore H
  | .deleteTokensAbove blockNumber =>
    { s with scanned := s.scanned.filter fun log => log.blockNumber ≤ blockNumber }
  | _ => s

end FactoryStore

namespace FactoryConfig

variable (cfg : FactoryConfig H)

def options : ScannerOptions H FactoryCall :=
  cfg.factoryScanner
    (fun logs _ => do
      let _ ← processFactoryLogs cfg.decodePonsLog logs
      return ())
    fun blockNumber => FactoryCall.await (.deleteTokensAbove blockNumber)

def backend : Backend H FactoryCall (FactoryReply H) (FactoryStore H) where
  logs o _ _ := o.ext.batch
  blockHash o _ _ := o.ext.hash
  ext call o s :=
    match call with
    | .warm _ => (.ok (), s)
    | .blockTime _ => (.ok o.ext.number, s)
    | .getLaunchedToken _ => (.ok o.ext.launched, s)
    | .tokenMetadata _ => (.ok o.ext.metadata, s)
    | .curveState _ => (.ok o.ext.curveState, s)
    | .tokenDecimals _ => (.ok o.ext.number, s)
    | .transactionInput _ => (.ok o.ext.input, s)
    | .findCreators addresses => (.ok (addresses.filter fun address => address ∈ s.creators), s)
    | .createCreators addresses =>
      let creators := Table.insertMany id s.creators addresses
      (.ok (creators.length - s.creators.length), { s with creators })
    | .createTokens rows =>
      let tokens := rows.foldl insertToken s.tokens
      (.ok (tokens.length - s.tokens.length), { s with tokens })
    | .findToken address => (.ok (s.tokens.find? fun row => row.address = address), s)
    | .setPhase address phase =>
      if s.stored address then
        (.ok (), { s with tokens := s.tokens.map fun row =>
          if row.address = address then { row with phase } else row })
      else (.error recordNotFound, s)
    | .deleteTokensAbove blockNumber =>
      (.ok (), { s with tokens := s.tokens.filter fun row => row.launchBlock ≤ blockNumber })

def miss (s : FactoryStore H) : FactoryStore H :=
  if s.preparing.any fun token => cfg.launchExists token && !s.stored token then
    { s with missed := true }
  else s

def noteOwn (s : FactoryStore H) (applied : Bool) (call : FactoryCall β)
    (answer : Except Failure β) : FactoryStore H :=
  let s := (if applied then s.unscan call else s).prepare call
  if call.givesUp answer then cfg.miss s else s

def note (s : FactoryStore H) (applied : Bool) :
    Call H FactoryCall β → Except Failure β → FactoryStore H
  | .getLogs _, answer =>
    match answer with
    | .ok batch => { s with window := batch.logs }
    | .error _ => s
  | .updateState _ data, _ => if applied then s.pass data else s
  | .ext call, answer => cfg.noteOwn s applied call answer
  | _, _ => s

def exec (call : Call H FactoryCall β) (o : Answers (FactoryReply H))
    (w : World H (FactoryStore H)) : Except Failure β × World H (FactoryStore H) :=
  let (answer, w') := backend.exec call o w
  (answer, { w' with base := cfg.note w'.base o.applied call answer })

abbrev RunState (H : Type) :=
  System.Config Unit (Call H FactoryCall) Failure ScanTickResult (World H (FactoryStore H))

def system [DecidableEq H] : System Unit (Call H FactoryCall) Failure ScanTickResult
    (Answers (FactoryReply H)) Empty (World H (FactoryStore H)) where
  exec _ _ := cfg.exec
  body _ := Scanner.tick cfg.options
  ready _ _ := true
  start _ w := { w with base := w.base.opened }
  finish _ _ w := w
  env _ w := w
  crash w := w

end FactoryConfig

end Stunks.Indexer
