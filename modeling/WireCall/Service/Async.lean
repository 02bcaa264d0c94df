import WireCall.Service.Table

namespace WireCall

/-!
# Methods that wait

The body of an asynchronous method is a `Task`: steps on the state of the instance, between which
it waits.  Its call converts the arguments before there is a task, and converts what the task comes
to after its last step.

A service is built by adding methods of both kinds (`Service.build`), and an addition replaces every
earlier one of its name, whatever their kinds.

Main statement: a call that is awaited to its end comes to what the call of the method comes to that
makes all the steps at once (`AsyncMethod.finish_call`).
-/

/-- What is left to be done on a state: nothing, or a step and what comes after it, which depends on
the state that the step was made in. -/
inductive Task (σ α : Type) where
  | done (a : α)
  | step (change : σ → σ) (next : σ → Task σ α)

namespace Task

variable {σ α β : Type}

/-- Makes all steps. -/
def finish : Task σ α → σ → α × σ
  | done a, s => (a, s)
  | step change next, s => (next s).finish (change s)

/-- The task with something done to its result. -/
def map (f : α → β) : Task σ α → Task σ β
  | done a => done (f a)
  | step change next => step change fun s => (next s).map f

/-- Running a mapped task to its end maps its result and keeps its state. -/
theorem finish_map (f : α → β) (t : Task σ α) (s : σ) :
    (t.map f).finish s = (f (t.finish s).1, (t.finish s).2) := by
  induction t generalizing s with
  | done a => rfl
  | step change next ih => exact ih s (change s)

end Task

/-- An asynchronous method of a service whose instances have the state `σ`. -/
structure AsyncMethod (σ : Type) where
  params : Shape
  result : Shape
  start : params.Carrier → Task σ (Outcome String result.Carrier)

namespace AsyncMethod

variable {σ : Type}

/-- The method that makes all the steps at once. -/
def settled (m : AsyncMethod σ) : Method σ where
  params := m.params
  result := m.result
  body a s := (m.start a).finish s

/-- Calls the method, known as `name`. -/
def call (m : AsyncMethod σ) (name : String) (args : List Value) : Task σ (Outcome Fault Value) :=
  match m.params.decodeArguments args with
  | .error cause => .done (.failed (.argumentConversion name cause))
  | .ok a => (m.start a).map m.settled.conclude

/-- Awaiting a call to an asynchronous method is the call to the method it settles to. -/
theorem finish_call (m : AsyncMethod σ) (name : String) (args : List Value) (s : σ) :
    (m.call name args).finish s = m.settled.call name args s := by
  have hparams : m.settled.params.decodeArguments args = m.params.decodeArguments args := rfl
  unfold call Method.call
  rw [hparams]
  cases m.params.decodeArguments args with
  | error cause => rfl
  | ok a => exact Task.finish_map m.settled.conclude (m.start a) s

/-- The method that waits once before it does everything in one step. -/
def waiting (m : Method σ) : AsyncMethod σ where
  params := m.params
  result := m.result
  start a := .step id fun _ => .step (fun s => (m.body a s).2) fun s => .done (m.body a s).1

end AsyncMethod

/-! ### Building services -/

namespace Service

variable {σ : Type}

/-- The service with one more asynchronous method; it replaces an earlier method of its name. -/
def withAsyncMethod (s : Service σ) (name : String) (m : AsyncMethod σ) : Service σ :=
  s.withMethod name m.settled

end Service

/-- What can be added to a service under a name. -/
inductive Addition (σ : Type) where
  | method (m : Method σ)
  | asyncMethod (m : AsyncMethod σ)

namespace Addition

variable {σ : Type}

/-- The method that makes all the steps at once. -/
def settled : Addition σ → Method σ
  | method m => m
  | asyncMethod m => m.settled

/-- Calls what was added under `name`, and awaits the end if it waits. -/
def call (addition : Addition σ) (name : String) (args : List Value) (s : σ) :
    Outcome Fault Value × σ :=
  match addition with
  | method m => m.call name args s
  | asyncMethod m => (m.call name args).finish s

/-- Both kinds are called like the method that makes all the steps at once. -/
theorem call_eq_settled (addition : Addition σ) (name : String) (args : List Value) (s : σ) :
    addition.call name args s = addition.settled.call name args s := by
  cases addition with
  | method m => rfl
  | asyncMethod m => exact m.finish_call name args s

end Addition

namespace Service

variable {σ : Type}

/-- The service with one more addition. -/
def withAddition (s : Service σ) (name : String) : Addition σ → Service σ
  | .method m => s.withMethod name m
  | .asyncMethod m => s.withAsyncMethod name m

/-- The service of an instance to which these were added, one after the other. -/
def build (owner : InstanceId) (additions : List (String × Addition σ)) : Service σ :=
  additions.foldl (fun s a => s.withAddition a.1 a.2) (ofInstance owner)

/-- An addition of either kind takes the place of its name. -/
theorem withAddition_eq (s : Service σ) (name : String) (addition : Addition σ) :
    s.withAddition name addition = s.withMethod name addition.settled := by
  cases addition with
  | method m => rfl
  | asyncMethod m => rfl

end Service
end WireCall
