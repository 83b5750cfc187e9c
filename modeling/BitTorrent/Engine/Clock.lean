import BitTorrent.Engine.Run

/-!
Time. Whatever is due makes a task ready, ready tasks run until there is none, and then time moves
on to the next moment at which something is due. Who waits for a moment sees it before the tasks
that are due at that very moment.
-/

set_option autoImplicit false

namespace BitTorrent.Engine

/-- More moments than any wait has. -/
def horizon : Nat := 100000000

/-- A task that is due at a moment. -/
structure Due where
  task : Task
  moment : Nat

/-- When the tasks of a link are due. -/
def linkDues (link : Link) (number : Nat) : List Due :=
  (link.stage.due?.map fun moment => ⟨.link number, moment⟩).toList ++
    (link.reader.due?.map fun moment => ⟨.reader number, moment⟩).toList

/-- When the tasks are due. -/
def dues (engine : Engine) : List Due :=
  (engine.network.listeners.zipIdx.filterMap fun (listener, number) =>
    listener.pausedUntil.map fun moment => ⟨.listener number, moment⟩) ++
  engine.links.zipIdx.flatMap fun (link, number) => linkDues link number

/-- The next moment at which a task or a sampler is due. -/
def nextDue? (engine : Engine) : Option Nat :=
  let tasks := engine.dues.foldl (fun best due => Metering.earlier best due.moment) none
  engine.transfers.foldl (fun best transfer =>
    match transfer.metering.nextDue? with
    | some moment => Metering.earlier best moment
    | none => best) tasks

/-- Makes ready what is due, and lets samplers fire. -/
def fire (engine : Engine) : Engine :=
  let sampled : Engine := { engine with transfers := engine.transfers.map (·.sample engine.now) }
  (sampled.dues.filter (·.moment ≤ engine.now)).foldl (fun engine due => engine.wake due.task)
    sampled

/-- Runs ready tasks in their order until there is none. -/
def drain : Nat → Engine → Engine
  | 0, engine => engine
  | fuel + 1, engine =>
    match engine.ready with
    | [] => engine
    | task :: rest => drain fuel ({ engine with ready := rest }.poll task)

/-- Runs what can run at this moment. -/
def settle (engine : Engine) : Engine :=
  drain patience engine.fire

/-- Passes time until a moment; `stop` ends the wait earlier. Gives whether it did. -/
def runUntil (stop : Engine → Bool) (target : Nat) : Nat → Engine → Engine × Bool
  | 0, engine => (engine, false)
  | fuel + 1, engine =>
    let engine := engine.settle
    if stop engine then (engine, true)
    else
      match engine.nextDue? with
      | some due =>
        if due < target then runUntil stop target fuel { engine with now := due }
        else ({ engine with now := max engine.now target }, false)
      | none => ({ engine with now := max engine.now target }, false)

/-- Passes some time. -/
def elapse (engine : Engine) (duration : Nat) : Engine :=
  (runUntil (fun _ => false) (engine.now + duration) horizon engine).1

/-- Runs what can run, now and a millisecond later. -/
def quiesce (engine : Engine) : Engine :=
  (engine.elapse Settings.millisecond).settle

end BitTorrent.Engine
