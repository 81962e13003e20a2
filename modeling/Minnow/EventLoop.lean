import Minnow.FileDescriptorWrite

/-!
The event loop. The hooks of its rules work on the data of the program, and may have the
handles of rules cancel them; they add no rules, an `interest` has no effect at all, and
what a hook throws ends the run. Which hooks have been called is noted, with what they
answered. How the kernel answers `poll` and `getsockopt` in a call is given.
-/

namespace Minnow
open Throwing

/-- Interest in reading or in writing a polled descriptor. -/
inductive Direction where
  | In
  | Out
  deriving Repr, DecidableEq

/-- The event asked of a polled descriptor; a placeholder asks for none. -/
abbrev Events := Option Direction

structure Revents where
  pollin : Bool := false
  pollout : Bool := false
  pollerr : Bool := false
  pollhup : Bool := false
  pollnval : Bool := false
  deriving Repr, DecidableEq

namespace Revents

def error (revents : Revents) : Bool := revents.pollerr || revents.pollnval

/-- `revents & events`. -/
def ready (revents : Revents) : Events → Bool
  | none => false
  | some .In => revents.pollin
  | some .Out => revents.pollout

end Revents

/-- What `getsockopt` tells of the error of a descriptor. -/
inductive SocketError where
  | notSocket
  | failed (errno : Errno)
  | unexpectedLength (optlen : Nat)
  | pending (error : Nat)
  deriving Repr, DecidableEq

/-- How the kernel answers in one call, for each position of the polled descriptors. -/
structure Kernel where
  poll : Except Errno (Nat → Revents)
  getsockopt : Nat → SocketError

/-- The object that a rule and its handle share, by its address. -/
abbrev RuleId := Nat

inductive Hook where
  | interest (answer : Bool)
  | callback
  | cancel
  | recover (answer : Bool)
  deriving Repr, DecidableEq

structure Call where
  rule : RuleId
  hook : Hook
  deriving Repr, DecidableEq

variable {σ : Type}

/-- What a hook does to the data, and the rules it has their handles cancel. -/
abbrev Action (σ : Type) := σ → Except Exception (σ × List RuleId)

structure BasicRule (σ : Type) where
  id : RuleId
  categoryId : Nat
  interest : σ → Bool
  callback : Action σ

structure FDRule (σ : Type) extends BasicRule σ where
  fd : σ → Descriptor
  direction : Direction
  cancel : Action σ
  recover : σ → Except Exception (Bool × σ × List RuleId)

/-- The hooks that a rule has unless it is given others. -/
def FDRule.cancelNothing : Action σ := fun world => .ok (world, [])

def FDRule.neverRecover : σ → Except Exception (Bool × σ × List RuleId) :=
  fun world => .ok (false, world, [])

/-- How often the descriptor has been read or written. -/
def FDRule.serviceCount (r : FDRule σ) (world : σ) : UInt32 :=
  match r.direction with
  | .In => (r.fd world).readCount
  | .Out => (r.fd world).writeCount

/-- A rule that will see no more of what it waits for. -/
def FDRule.ended (r : FDRule σ) (world : σ) : Bool :=
  r.direction == .In && (r.fd world).eof || (r.fd world).closed

/-- What the hooks work on: the data of the program and the flags that the handles set. -/
structure Memory (σ : Type) where
  world : σ
  cancelRequested : List RuleId := []
  calls : List Call := []

namespace Memory

def note (m : Memory σ) (rule : RuleId) (hook : Hook) : Memory σ :=
  { m with calls := m.calls ++ [⟨rule, hook⟩] }

/-- What a hook that has been called leaves. -/
def after (m : Memory σ) (rule : RuleId) (hook : Hook) (left : σ × List RuleId) : Memory σ :=
  { m.note rule hook with world := left.1, cancelRequested := m.cancelRequested ++ left.2 }

def ask (m : Memory σ) (r : BasicRule σ) : Memory σ := m.note r.id (.interest (r.interest m.world))

def call (m : Memory σ) (rule : RuleId) (hook : Hook) (action : Action σ) :
    Except Exception (Memory σ) := do
  let left ← action m.world
  return m.after rule hook left

def tryRecover (m : Memory σ) (r : FDRule σ) : Except Exception (Memory σ × Bool) := do
  let (answer, left) ← r.recover m.world
  return (m.after r.id (.recover answer) left, answer)

end Memory

structure EventLoop (σ : Type) where
  ruleCategories : List String := []
  fdRules : List (FDRule σ) := []
  nonFdRules : List (BasicRule σ) := []
  nextRule : RuleId := 0
  memory : Memory σ

namespace EventLoop

inductive Result where
  | Success
  | Timeout
  | Exit
  deriving Repr, DecidableEq

/-- The categories that the constructor reserves room for. -/
def maxCategories : Nat := 64

def addCategory (e : EventLoop σ) (name : String) : Except Exception (Nat × EventLoop σ) :=
  if maxCategories ≤ e.ruleCategories.length then
    .error (.runtimeError "maximum categories reached")
  else .ok (e.ruleCategories.length, { e with ruleCategories := e.ruleCategories ++ [name] })

/-- The rule, given its address, joins the rules that wait for descriptors. -/
def addFDRule (e : EventLoop σ) (categoryId : Nat) (rule : RuleId → FDRule σ) :
    Except Exception (RuleId × EventLoop σ) :=
  if e.ruleCategories.length ≤ categoryId then .error (.outOfRange "bad category_id")
  else
    let rule := { rule e.nextRule with id := e.nextRule, categoryId }
    .ok (e.nextRule, { e with fdRules := e.fdRules ++ [rule], nextRule := e.nextRule + 1 })

/-- `add_rule` with a category of its own. -/
def addNamedFDRule (e : EventLoop σ) (name : String) (rule : RuleId → FDRule σ) :
    Except Exception (EventLoop σ) := do
  let (categoryId, e) ← e.addCategory name
  let (_, e) ← e.addFDRule categoryId rule
  return e

/-- The rule, given its address, joins the others. -/
def addRule (e : EventLoop σ) (categoryId : Nat) (rule : RuleId → BasicRule σ) :
    Except Exception (RuleId × EventLoop σ) :=
  if e.ruleCategories.length ≤ categoryId then .error (.outOfRange "bad category_id")
  else
    let rule := { rule e.nextRule with id := e.nextRule, categoryId }
    .ok (e.nextRule, { e with nonFdRules := e.nonFdRules ++ [rule], nextRule := e.nextRule + 1 })

/-- `RuleHandle::cancel`. -/
def cancelRule (e : EventLoop σ) (rule : RuleId) : EventLoop σ :=
  { e with memory := { e.memory with cancelRequested := e.memory.cancelRequested ++ [rule] } }

/-- The text of a rule that is called for nothing. -/
def busyWait (names : List String) (categoryId : Nat) (what : String) : Exception :=
  .runtimeError
    ("EventLoop: busy wait detected: rule \"" ++ names.getD categoryId "" ++ "\" " ++ what)

/-- The calls that a rule without a descriptor has in a row. -/
def maxIterations : Nat := 128

/-- Call a rule for as long as it is interested; the second component tells whether it was. -/
def fire (names : List String) (r : BasicRule σ) :
    Nat → Memory σ → Except Exception (Memory σ × Bool)
  | 0, m =>
      if r.interest m.world then
        .error (busyWait names r.categoryId
          ("is still interested after " ++ toString (maxIterations + 1) ++ " iterations"))
      else .ok (m.ask r, false)
  | left + 1, m =>
      if r.interest m.world then do
        let m ← (m.ask r).call r.id .callback r.callback
        let (m, _) ← fire names r left m
        return (m, true)
      else .ok (m.ask r, false)

/-- The rules without a descriptor, up to the first that fires: those left, and whether
one has. -/
def serveNonFd (names : List String) :
    List (BasicRule σ) → Memory σ → Except Exception (List (BasicRule σ) × Memory σ × Bool)
  | [], m => .ok ([], m, false)
  | r :: rest, m =>
      if m.cancelRequested.contains r.id then serveNonFd names rest m
      else do
        let (m, fired) ← fire names r maxIterations m
        if fired then return (r :: rest, m, true)
        else
          let (rest, m, fired) ← serveNonFd names rest m
          return (r :: rest, m, fired)

/-- The rules left to poll, with the event asked for each. -/
def setUp : List (FDRule σ) → Memory σ → Except Exception (List (FDRule σ × Events) × Memory σ)
  | [], m => .ok ([], m)
  | r :: rest, m =>
      if m.cancelRequested.contains r.id then setUp rest m
      else if r.ended m.world then do
        let m ← m.call r.id .cancel r.cancel
        setUp rest m
      else do
        let events := if r.interest m.world then some r.direction else none
        let (polled, m) ← setUp rest (m.ask r.toBasicRule)
        return ((r, events) :: polled, m)

/-- Whether the rule recovers from an error; it is not asked to when its descriptor is invalid. -/
def recovers (revents : Revents) (r : FDRule σ) (m : Memory σ) :
    Except Exception (Memory σ × Bool) :=
  if revents.pollnval then .ok (m, false) else m.tryRecover r

/-- What is done about an error of a polled descriptor, and whether its rule is kept. -/
def handleError (socketError : SocketError) (revents : Revents) (r : FDRule σ) (m : Memory σ) :
    Except Exception (Memory σ × Bool) := do
  let (m, recovered) ← recovers revents r m
  if recovered then return (m, true)
  else
    match socketError with
    | .failed errno => throw (.unixError "getsockopt" errno)
    | .unexpectedLength optlen =>
        throw (.runtimeError ("unexpected length from getsockopt: " ++ toString optlen))
    | .notSocket | .pending _ =>
        let m ← m.call r.id .cancel r.cancel
        return (m, false)

/-- Call a rule whose descriptor is ready. -/
def serve (names : List String) (r : FDRule σ) (m : Memory σ) : Except Exception (Memory σ) := do
  let countBefore := r.serviceCount m.world
  let m ← m.call r.id .callback r.callback
  if countBefore = r.serviceCount m.world ∧ ¬ (r.fd m.world).closed then
    if r.interest m.world then
      throw (busyWait names r.categoryId "did not read/write fd and is still interested")
    else return m.ask r.toBasicRule
  else return m

/-- A hangup that leaves nothing to wait for. -/
def defunct (revents : Revents) (r : FDRule σ) (events : Events) : Bool :=
  revents.pollhup && (events.isSome && !revents.ready events || r.direction == .Out)

/-- The polled rules, up to the first that is served: those left. -/
def servePolled (names : List String) (getsockopt : Nat → SocketError) (revents : Nat → Revents) :
    Nat → List (FDRule σ × Events) → Memory σ → Except Exception (List (FDRule σ) × Memory σ)
  | _, [], m => .ok ([], m)
  | idx, (r, events) :: rest, m =>
      if (revents idx).error then do
        let (m, kept) ← handleError (getsockopt idx) (revents idx) r m
        let (rules, m) ← servePolled names getsockopt revents (idx + 1) rest m
        return (if kept then r :: rules else rules, m)
      else if defunct (revents idx) r events then do
        let m ← m.call r.id .cancel r.cancel
        servePolled names getsockopt revents (idx + 1) rest m
      else if (revents idx).ready events then do
        let m ← serve names r m
        return (r :: rest.map Prod.fst, m)
      else do
        let (rules, m) ← servePolled names getsockopt revents (idx + 1) rest m
        return (r :: rules, m)

def waitNextEvent (e : EventLoop σ) (kernel : Kernel) :
    Except Exception (Result × EventLoop σ) := do
  let (nonFdRules, memory, fired) ← serveNonFd e.ruleCategories e.nonFdRules e.memory
  let e := { e with nonFdRules, memory }
  if fired then return (.Success, e)
  else
    let (polled, memory) ← setUp e.fdRules e.memory
    let e := { e with fdRules := polled.map Prod.fst, memory }
    if polled.all fun p => p.2.isNone then return (.Exit, e)
    else
      match kernel.poll with
      | .error errno => throw (.unixError "poll" errno)
      | .ok revents =>
          if (List.range polled.length).all fun idx => revents idx = {} then return (.Timeout, e)
          else
            let (fdRules, memory) ←
              servePolled e.ruleCategories kernel.getsockopt revents 0 polled e.memory
            return (.Success, { e with fdRules, memory })

end EventLoop
end Minnow
