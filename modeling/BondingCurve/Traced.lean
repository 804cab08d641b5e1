import BondingCurve.Event

/-!
# Traced computations

A traced computation has a result, or the reason why there is none, and the events up to that point. Sequencing
appends the events and stops at the first failure, so the events of a failed run are those before the failure.

* `result_bind` and its companions: the result of a sequence does not depend on events;
* `events_bind_ok`, `events_bind_error`: the events of a sequence.
-/

namespace BondingCurve

/-- A result together with the events on the way to it. -/
structure Traced (α : Type) where
  events : List Event
  result : Except CurveError α

namespace Traced

variable {α β : Type}

/-- A computation without events. -/
def ofExcept (result : Except CurveError α) : Traced α :=
  ⟨[], result⟩

/-- The first computation, and if it succeeds the next one. -/
def andThen (x : Traced α) (f : α → Traced β) : Traced β :=
  match x.result with
  | .ok a => ⟨x.events ++ (f a).events, (f a).result⟩
  | .error e => ⟨x.events, .error e⟩

/-- The first computation, and if it succeeds one that may go on for ever. -/
def andPerhaps (x : Traced α) (f : α → Option (Traced β)) : Option (Traced β) :=
  match x.result with
  | .ok a => do
    let y ← f a
    some ⟨x.events ++ y.events, y.result⟩
  | .error e => some ⟨x.events, .error e⟩

instance : Monad Traced where
  pure a := ⟨[], .ok a⟩
  bind := andThen

instance : MonadLift (Except CurveError) Traced := ⟨ofExcept⟩

instance : MonadLift (Except Signal) Traced := ⟨fun x => ofExcept (liftSignal x)⟩

/-- A failure without events. -/
def fail (e : CurveError) : Traced α :=
  ⟨[], .error e⟩

/-- Reports an event. -/
def emit (event : Event) : Traced Unit :=
  ⟨[event], .ok ()⟩

/-! ### Results -/

@[simp] theorem result_pure (a : α) : (pure a : Traced α).result = .ok a := rfl

@[simp] theorem result_ofExcept (x : Except CurveError α) : (ofExcept x).result = x := rfl

@[simp] theorem result_liftM (x : Except CurveError α) : (liftM x : Traced α).result = x := rfl

@[simp] theorem result_liftM_signal (x : Except Signal α) : (liftM x : Traced α).result = liftSignal x := rfl

@[simp] theorem result_fail (e : CurveError) : (fail e : Traced α).result = .error e := rfl

@[simp] theorem result_emit (event : Event) : (emit event).result = .ok () := rfl

@[simp] theorem result_bind (x : Traced α) (f : α → Traced β) :
    (x >>= f).result = x.result >>= fun a => (f a).result := by
  cases x with
  | mk events result => cases result <;> rfl

theorem result_ite {p : Prop} [Decidable p] (x y : Traced α) :
    (if p then x else y).result = if p then x.result else y.result :=
  apply_ite result p x y

/-! ### Events -/

@[simp] theorem events_pure (a : α) : (pure a : Traced α).events = [] := rfl

@[simp] theorem events_fail (e : CurveError) : (fail e : Traced α).events = [] := rfl

@[simp] theorem events_emit (event : Event) : (emit event).events = [event] := rfl

theorem events_bind_ok {x : Traced α} {a : α} (h : x.result = .ok a) (f : α → Traced β) :
    (x >>= f).events = x.events ++ (f a).events := by
  simp [bind, andThen, h]

theorem events_bind_error {x : Traced α} {e : CurveError} (h : x.result = .error e) (f : α → Traced β) :
    (x >>= f).events = x.events := by
  simp [bind, andThen, h]

end Traced
end BondingCurve
