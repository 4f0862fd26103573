import GuardedExpr.Proofs.Agreement

/-!
# Recorded runs

Access to the world can be recorded: every step by which an expression reads,
stores, calls or makes something becomes an event, with the heap at that
moment. Recording changes nothing else, so what holds of the events of the
recorded run holds of the steps of the run itself, up to its end or its error.
-/

namespace GuardedExpr

/-- A step by which an expression reaches the world. -/
inductive Step where
  | read (owner : Value) (key : String)
  | write (owner : Value) (key : String) (v : Value)
  | invoke (call : Invocation)
  | makeArray (items : List Value)
  | makeObject (properties : List (String × Value))

/-- A step and the heap it is taken in. -/
structure Event where
  step : Step
  heap : Heap

/-- The state of a host, and the events so far. -/
structure Recorded (σ : Type) where
  host : σ
  events : List Event

variable {σ α κ : Type}

namespace World

/-- The world with a record that is still empty. -/
def recording (w : World σ) : World (Recorded σ) where
  heap := w.heap
  host := ⟨w.host, []⟩

/-- The world without the record. -/
def forget (w : World (Recorded σ)) : World σ where
  heap := w.heap
  host := w.host.host

end World

/-- Runs with the step put on record first. -/
def Run.recorded (step : Step) (m : Run σ α) : Run (Recorded σ) α :=
  ExceptT.mk fun w =>
    let (result, after) := m.outcome w.forget
    (result, ⟨after.heap, after.host, w.host.events ++ [⟨step, w.heap⟩]⟩)

/-- The same access, with every step on record. -/
def Access.recorded (access : Access σ) : Access (Recorded σ) where
  read owner key := .recorded (.read owner key) (access.read owner key)
  write owner key v := .recorded (.write owner key v) (access.write owner key v)
  invoke call := .recorded (.invoke call) (access.invoke call)
  makeArray items := .recorded (.makeArray items) (access.makeArray items)
  makeObject properties := .recorded (.makeObject properties) (access.makeObject properties)

/-- The world with a record is the world, and every event on the record is of a kind. -/
def RecordedAs (Safe : Event → Prop) (w : World (Recorded σ)) (w' : World σ) : Prop :=
  w.forget = w' ∧ ∀ event ∈ w.host.events, Safe event

namespace Run.Agree

variable [Preorder κ] {k : κ} {Safe : Event → Prop} {P : κ → α → Prop}

/-- A step of the kind is put on record and otherwise taken as it is. -/
theorem recorded {step : Step} {m : Run σ α} (safe : ∀ heap, Safe ⟨step, heap⟩)
    (holds : ∀ w a, (m.outcome w).1 = .ok a → P k a) :
    Agree (fun _ => RecordedAs Safe) k (Run.recorded step m) m P := by
  intro w w' related
  obtain ⟨rfl, kept⟩ := related
  refine ⟨k, le_refl k, ⟨rfl, ?_⟩, rfl, holds w.forget⟩
  intro event member
  rcases List.mem_append.mp member with before | last
  · exact kept event before
  · obtain rfl := List.mem_singleton.mp last
    exact safe w.heap

/-- What an expression does to the heap on its own is not on record. -/
theorem unrecorded {f : Heap → α × Heap} (holds : ∀ h, P k (f h).1) :
    Agree (fun _ => RecordedAs Safe) k (onHeap f : Run (Recorded σ) α) (onHeap f) P := by
  intro w w' related
  obtain ⟨rfl, kept⟩ := related
  refine ⟨k, le_refl k, ⟨rfl, kept⟩, rfl, ?_⟩
  intro a same
  obtain rfl := Except.ok.inj same
  exact holds w.heap

end Run.Agree

/-- The recorded run ends as the run does, with events of a kind only, and gives a value of a kind
if it gives one. -/
structure RunsAs (Safe : Event → Prop) (Good : Value → Prop) (m : Run (Recorded σ) Value)
    (n : Run σ Value) (w : World σ) : Prop where
  result : (m.outcome w.recording).1 = (n.outcome w).1
  world : (m.outcome w.recording).2.forget = (n.outcome w).2
  events : ∀ event ∈ (m.outcome w.recording).2.host.events, Safe event
  value : ∀ v, (n.outcome w).1 = .ok v → Good v

theorem RunsAs.of_agree [Preorder κ] {k : κ} {Safe : Event → Prop} {P : κ → Value → Prop}
    {Good : Value → Prop} {m : Run (Recorded σ) Value} {n : Run σ Value}
    (agree : Run.Agree (fun _ => RecordedAs Safe) k m n P) (good : ∀ l v, P l v → Good v)
    (w : World σ) : RunsAs Safe Good m n w := by
  have related : RecordedAs Safe w.recording w := by
    refine ⟨rfl, fun event member => ?_⟩
    cases member
  obtain ⟨l, _, ⟨world, kept⟩, result, holds⟩ := agree w.recording w related
  exact ⟨result, world, kept, fun v ended => good l v (holds v (result.trans ended))⟩

end GuardedExpr
