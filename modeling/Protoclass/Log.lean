import Protoclass.Text.Basic

/-!
# Logged computations

A log entry has a level, a message and named values.  `Logged ε α` is a
computation that writes entries and then fails with an `ε` or returns an `α`;
a failure keeps the entries written before it.  Its result alone is a
computation in `Except ε`: `result` commutes with `pure`, `bind` and `mapM`, so
a statement about results never has to mention the log.
-/

namespace Protoclass

namespace Log

/-- How important an entry is, from least to most. -/
inductive Level where
  | trace
  | debug
  | info
  | warn
  | error
  | fatal
  | off
  deriving DecidableEq, Repr

/-- A level's place in the order of importance. -/
def Level.rank : Level → Nat
  | .trace => 0
  | .debug => 1
  | .info => 2
  | .warn => 3
  | .error => 4
  | .fatal => 5
  | .off => 6

/-- A named value's value. -/
inductive Value where
  | text (t : Text)
  | int (n : Int)
  | bool (b : Bool)
  | texts (ts : List Text)
  deriving DecidableEq, Repr

/-- One line of the log. -/
structure Entry where
  level : Level
  message : Text
  fields : List (Text × Value) := []
  deriving DecidableEq, Repr

/-- An entry with one more named value. -/
def Entry.withField (name : Text) (value : Value) (entry : Entry) : Entry :=
  { entry with fields := (name, value) :: entry.fields }

/-- The entries that are at least as important as `least`. -/
def atLeast (least : Level) (log : List Entry) : List Entry :=
  log.filter fun entry => least.rank ≤ entry.level.rank

end Log

/-- A computation that writes log entries, and then fails or returns. -/
structure Logged (ε α : Type) where
  log : List Log.Entry
  result : Except ε α

namespace Logged

variable {ε ε' α β : Type}

instance : Monad (Logged ε) where
  pure a := ⟨[], .ok a⟩
  bind x f :=
    match x.result with
    | .error e => ⟨x.log, .error e⟩
    | .ok a => ⟨x.log ++ (f a).log, (f a).result⟩

/-- Fail, writing nothing. -/
def fail (e : ε) : Logged ε α := ⟨[], .error e⟩

/-- Return what `result` holds, writing nothing. -/
def lift (result : Except ε α) : Logged ε α := ⟨[], result⟩

/-- Write one entry. -/
def write (entry : Log.Entry) : Logged ε Unit := ⟨[entry], .ok ()⟩

/-- Write an entry of level `debug`. -/
def debug (message : Text) (fields : List (Text × Log.Value)) : Logged ε Unit :=
  write { level := .debug, message, fields }

/-- Write an entry of level `info`. -/
def info (message : Text) (fields : List (Text × Log.Value)) : Logged ε Unit :=
  write { level := .info, message, fields }

/-- Write an entry of level `warn`. -/
def warn (message : Text) (fields : List (Text × Log.Value)) : Logged ε Unit :=
  write { level := .warn, message, fields }

/-- Write an entry of level `error`. -/
def error (message : Text) (fields : List (Text × Log.Value)) : Logged ε Unit :=
  write { level := .error, message, fields }

/-- The same computation with each of its entries carrying a named value. -/
def tagged (name : Text) (value : Log.Value) (x : Logged ε α) : Logged ε α :=
  { x with log := x.log.map (Log.Entry.withField name value) }

/-- The same computation with its failure turned into another. -/
def mapError (f : ε → ε') (x : Logged ε α) : Logged ε' α :=
  { log := x.log, result := x.result.mapError f }

/-- The same computation, returning its failure instead of failing. -/
def attempt (x : Logged ε α) : Logged ε' (Except ε α) :=
  { log := x.log, result := .ok x.result }

/-- What a computation that cannot fail returns. -/
def value (x : Logged Empty α) : α :=
  match x.result with
  | .ok a => a

/-! ## Results -/

@[simp]
theorem result_pure (a : α) : (pure a : Logged ε α).result = .ok a := rfl

@[simp]
theorem result_bind (x : Logged ε α) (f : α → Logged ε β) :
    (x >>= f).result = x.result >>= fun a => (f a).result := by
  rcases x with ⟨log, result⟩
  cases result <;> rfl

@[simp]
theorem result_fail (e : ε) : (fail e : Logged ε α).result = .error e := rfl

@[simp]
theorem result_lift (r : Except ε α) : (lift r).result = r := rfl

@[simp]
theorem result_write (entry : Log.Entry) : (write entry : Logged ε Unit).result = .ok () := rfl

@[simp]
theorem result_debug (message : Text) (fields : List (Text × Log.Value)) :
    (debug message fields : Logged ε Unit).result = .ok () := rfl

@[simp]
theorem result_info (message : Text) (fields : List (Text × Log.Value)) :
    (info message fields : Logged ε Unit).result = .ok () := rfl

@[simp]
theorem result_warn (message : Text) (fields : List (Text × Log.Value)) :
    (warn message fields : Logged ε Unit).result = .ok () := rfl

@[simp]
theorem result_error (message : Text) (fields : List (Text × Log.Value)) :
    (error message fields : Logged ε Unit).result = .ok () := rfl

@[simp]
theorem result_tagged (name : Text) (value : Log.Value) (x : Logged ε α) :
    (tagged name value x).result = x.result := rfl

@[simp]
theorem result_mapError (f : ε → ε') (x : Logged ε α) :
    (mapError f x).result = x.result.mapError f := rfl

@[simp]
theorem result_attempt (x : Logged ε α) :
    (attempt x : Logged ε' (Except ε α)).result = .ok x.result := rfl

theorem value_bind (x : Logged Empty α) (f : α → Logged Empty β) :
    (x >>= f).value = (f x.value).value := by
  rcases x with ⟨log, result⟩
  cases result with
  | error e => contradiction
  | ok a => rfl

theorem value_attempt (x : Logged ε α) :
    (attempt x : Logged Empty (Except ε α)).value = x.result := rfl

instance : LawfulMonad (Logged ε) :=
  LawfulMonad.mk' (Logged ε)
    (fun x => by
      rcases x with ⟨log, result⟩
      cases result <;> simp [Functor.map])
    (fun a f => by simp [bind, pure])
    (fun x f g => by
      rcases x with ⟨log, result⟩
      cases result with
      | error e => simp [bind]
      | ok a =>
        simp only [bind]
        cases (f a).result <;> simp)

@[simp]
theorem result_map (f : α → β) (x : Logged ε α) : (f <$> x).result = f <$> x.result := by
  rcases x with ⟨log, result⟩
  cases result <;> rfl

theorem result_mapM (f : α → Logged ε β) (xs : List α) :
    (xs.mapM f).result = xs.mapM fun a => (f a).result := by
  induction xs with
  | nil => rfl
  | cons a rest ih =>
    rw [List.mapM_cons, List.mapM_cons, result_bind]
    simp only [result_bind, ih, result_pure]
    rfl

end Logged

end Protoclass
