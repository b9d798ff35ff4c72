import Mathlib.Data.List.Forall2
import Protoclass.Log

/-!
# Results that succeed or fail

How sequencing and traversal act on results.  A sequence succeeds when each of
its parts does, and a traversal when it does on every element.  What a failing
one fails with is the first failure of its parts.  `Alike` relates two results
that fail together, with the same failure, and agree on success when some
condition holds.
-/

namespace Protoclass.Result

variable {ε α β γ : Type}

@[simp]
theorem ok_bind (a : α) (f : α → Except ε β) : (Except.ok a >>= f) = f a := rfl

@[simp]
theorem error_bind (e : ε) (f : α → Except ε β) : (Except.error e >>= f) = .error e := rfl

theorem mapM_congr {f g : α → Except ε β} {xs : List α} (same : ∀ x ∈ xs, f x = g x) :
    xs.mapM f = xs.mapM g := by
  induction xs with
  | nil => rfl
  | cons x rest ih =>
    rw [List.mapM_cons, List.mapM_cons, same x List.mem_cons_self]
    rw [ih fun y member => same y (List.mem_cons_of_mem x member)]

theorem mapM_ok (f : α → β) (xs : List α) :
    (xs.mapM fun x => (.ok (f x) : Except ε β)) = .ok (xs.map f) :=
  List.mapM_pure

/-- A sequence succeeds when its first part does, and then its second. -/
theorem bind_eq_ok_iff {x : Except ε α} {f : α → Except ε β} {b : β} :
    (x >>= f) = .ok b ↔ ∃ a, x = .ok a ∧ f a = .ok b := by
  cases x with
  | error e => simp
  | ok a => simp

theorem mapError_eq_ok_iff {δ : Type} {x : Except ε α} {f : ε → δ} {a : α} :
    x.mapError f = .ok a ↔ x = .ok a := by
  cases x <;> simp [Except.mapError]

theorem mapError_eq_error_iff {δ : Type} {x : Except ε α} {f : ε → δ} {d : δ} :
    x.mapError f = .error d ↔ ∃ e, x = .error e ∧ d = f e := by
  cases x <;> simp [Except.mapError, eq_comm]

theorem forall₂_of_mapM_eq_ok {f : α → Except ε β} {xs : List α} {ys : List β}
    (mapped : xs.mapM f = .ok ys) : List.Forall₂ (fun x y => f x = .ok y) xs ys := by
  induction xs generalizing ys with
  | nil =>
    cases mapped
    exact .nil
  | cons x rest ih =>
    rw [List.mapM_cons] at mapped
    obtain ⟨y, first, mapped⟩ := bind_eq_ok_iff.mp mapped
    obtain ⟨others, more, mapped⟩ := bind_eq_ok_iff.mp mapped
    cases mapped
    exact .cons first (ih more)

theorem mapM_eq_ok_of_forall₂ {f : α → Except ε β} {xs : List α} {ys : List β}
    (each : List.Forall₂ (fun x y => f x = .ok y) xs ys) : xs.mapM f = .ok ys := by
  induction each with
  | nil => rfl
  | cons first _ ih =>
    rw [List.mapM_cons, first, ih]
    rfl

/-- A traversal succeeds with what another does, if each element does. -/
theorem mapM_eq_ok_of_imp {δ : Type} {f : α → Except ε β} {g : α → Except δ β} {xs : List α}
    {ys : List β} (each : ∀ x y, f x = .ok y → g x = .ok y) (mapped : xs.mapM f = .ok ys) :
    xs.mapM g = .ok ys :=
  mapM_eq_ok_of_forall₂ ((forall₂_of_mapM_eq_ok mapped).imp each)

/-- What a traversal returns comes from its elements. -/
theorem exists_mem_of_mapM_eq_ok {f : α → Except ε β} {xs : List α} {ys : List β}
    (mapped : xs.mapM f = .ok ys) {y : β} (member : y ∈ ys) : ∃ x ∈ xs, f x = .ok y := by
  have each := forall₂_of_mapM_eq_ok mapped
  clear mapped
  induction each with
  | nil => contradiction
  | @cons x first xs ys made _ ih =>
    rcases List.mem_cons.mp member with rfl | later
    · exact ⟨x, List.mem_cons_self, made⟩
    · obtain ⟨source, among, made⟩ := ih later
      exact ⟨source, List.mem_cons_of_mem x among, made⟩

/-- What each step of a fold keeps, the fold keeps. -/
theorem foldlM_induction {f : β → α → Except ε β} (kept : β → Prop)
    (step : ∀ b a next, kept b → f b a = .ok next → kept next) {xs : List α} {start last : β}
    (first : kept start) (folded : xs.foldlM f start = .ok last) : kept last := by
  induction xs generalizing start with
  | nil =>
    cases folded
    exact first
  | cons a rest ih =>
    rw [List.foldlM_cons] at folded
    obtain ⟨next, stepped, folded⟩ := bind_eq_ok_iff.mp folded
    exact ih (step start a next first stepped) folded

theorem bind_ok (f : α → β) (x : Except ε α) : (x >>= fun a => .ok (f a)) = f <$> x :=
  bind_pure_comp f x

/-- What is done with each result of a traversal can be done afterwards. -/
theorem mapM_map (f : α → Except ε β) (g : α → β → γ) (xs : List α) :
    (xs.mapM fun x => g x <$> f x) = List.zipWith g xs <$> xs.mapM f := by
  induction xs with
  | nil => rfl
  | cons x rest ih =>
    rw [List.mapM_cons, List.mapM_cons, ih]
    cases f x with
    | error e => rfl
    | ok y => cases rest.mapM f <;> rfl

theorem map_eq_ok_iff {f : α → β} {x : Except ε α} {b : β} :
    f <$> x = .ok b ↔ ∃ a, x = .ok a ∧ f a = b := by
  rw [← bind_ok, bind_eq_ok_iff]
  simp only [Except.ok.injEq]

/-- The result of a traversal at an index is that of the element there. -/
theorem exists_getElem?_of_mapM_eq_ok {f : α → Except ε β} {xs : List α} {ys : List β} {r : Nat}
    {x : α} (mapped : xs.mapM f = .ok ys) (found : xs[r]? = some x) :
    ∃ y, ys[r]? = some y ∧ f x = .ok y := by
  have each := forall₂_of_mapM_eq_ok mapped
  clear mapped
  induction each generalizing r with
  | nil => contradiction
  | @cons first y rest others made _ ih =>
    cases r with
    | zero =>
      cases found
      exact ⟨y, rfl, made⟩
    | succ r => exact ih found

theorem exists_getElem?_of_mapM_zipIdx_eq_ok {f : α × Nat → Except ε β} {xs : List α} {ys : List β}
    {r : Nat} {x : α} (mapped : xs.zipIdx.mapM f = .ok ys) (found : xs[r]? = some x) :
    ∃ y, ys[r]? = some y ∧ f (x, r) = .ok y := by
  apply exists_getElem?_of_mapM_eq_ok mapped
  simp [found]

/-! ## The first failure -/

/-- What a result fails with, if it fails. -/
def error? : Except ε α → Option ε
  | .ok _ => none
  | .error e => some e

@[simp]
theorem error?_ok (a : α) : error? (.ok a : Except ε α) = none := rfl

@[simp]
theorem error?_error (e : ε) : error? (.error e : Except ε α) = some e := rfl

@[simp]
theorem error?_pure (a : α) : error? (Pure.pure a : Except ε α) = none := rfl

theorem error?_eq_none_iff {x : Except ε α} : error? x = none ↔ ∃ a, x = .ok a := by
  cases x with
  | error e => simp
  | ok a => simp

theorem error?_eq_some_iff {x : Except ε α} {e : ε} : error? x = some e ↔ x = .error e := by
  cases x with
  | error d => simp
  | ok a => simp

/-- If the failure of the second part does not depend on what the first returns,
a sequence fails like its first part, or else like its second. -/
theorem error?_bind {x : Except ε α} {f : α → Except ε β} {second : Option ε}
    (each : ∀ a, error? (f a) = second) : error? (x >>= f) = (error? x).or second := by
  cases x with
  | error e => rfl
  | ok a => exact each a

/-- A traversal fails with the first of the failures of all elements, listed in
their order. -/
theorem error?_mapM {f : α → Except ε β} {failures : α → List ε} {xs : List α}
    (each : ∀ x ∈ xs, error? (f x) = (failures x).head?) :
    error? (xs.mapM f) = (xs.flatMap failures).head? := by
  induction xs with
  | nil => rfl
  | cons x rest ih =>
    rw [List.forall_mem_cons] at each
    rw [List.mapM_cons, List.flatMap_cons, List.head?_append, ← each.1, ← ih each.2]
    apply error?_bind
    intro y
    rw [error?_bind fun _ => error?_pure _, Option.or_none]

theorem error?_mapM_eq_none {f : α → Except ε β} {xs : List α}
    (each : ∀ x ∈ xs, error? (f x) = none) : error? (xs.mapM f) = none := by
  have failures : ∀ x ∈ xs, error? (f x) = ([] : List ε).head? := each
  rw [error?_mapM failures, List.flatMap_eq_nil_iff.mpr fun _ _ => rfl]
  rfl

/-- A traversal fails with the failure of the first element that fails. -/
theorem mapM_eq_error_iff {f : α → Except ε β} {xs : List α} {e : ε} :
    xs.mapM f = .error e ↔ ∃ before x after, xs = before ++ x :: after ∧
      (∀ y ∈ before, ∃ b, f y = .ok b) ∧ f x = .error e := by
  constructor
  · intro failed
    induction xs with
    | nil => contradiction
    | cons x rest ih =>
      rw [List.mapM_cons] at failed
      cases first : f x with
      | error d =>
        rw [first] at failed
        cases failed
        exact ⟨[], x, rest, rfl, by simp, first⟩
      | ok b =>
        have later : rest.mapM f = .error e := by
          rw [first] at failed
          cases mapped : rest.mapM f with
          | error d =>
            rw [mapped] at failed
            cases failed
            rfl
          | ok bs =>
            rw [mapped] at failed
            contradiction
        obtain ⟨before, y, after, rfl, fine, failed⟩ := ih later
        exact ⟨x :: before, y, after, rfl, List.forall_mem_cons.mpr ⟨⟨b, first⟩, fine⟩, failed⟩
  · rintro ⟨before, x, after, rfl, fine, failed⟩
    induction before with
    | nil =>
      rw [List.nil_append, List.mapM_cons, failed]
      rfl
    | cons y before ih =>
      rw [List.forall_mem_cons] at fine
      obtain ⟨⟨b, first⟩, fine⟩ := fine
      rw [List.cons_append, List.mapM_cons, first, ih fine]
      rfl

/-! ## Failures of a kind -/

/-- A result that fails in the given ways, if it fails. -/
def FailsOnly (allowed : ε → Prop) (x : Except ε α) : Prop :=
  ∀ e, x = .error e → allowed e

variable {allowed : ε → Prop}

@[simp]
theorem failsOnly_ok (a : α) : FailsOnly allowed (.ok a : Except ε α) := nofun

@[simp]
theorem failsOnly_pure (a : α) : FailsOnly allowed (Pure.pure a : Except ε α) := nofun

@[simp]
theorem failsOnly_error_iff {e : ε} : FailsOnly allowed (.error e : Except ε α) ↔ allowed e := by
  constructor
  · exact fun only => only e rfl
  · rintro fits _ ⟨⟩
    exact fits

theorem FailsOnly.bind {x : Except ε α} {f : α → Except ε β} (first : FailsOnly allowed x)
    (second : ∀ a, FailsOnly allowed (f a)) : FailsOnly allowed (x >>= f) := by
  cases x with
  | error e => exact fun d same => first d (by cases same; rfl)
  | ok a => exact second a

theorem failsOnly_mapError {δ : Type} {f : δ → ε} (each : ∀ e, allowed (f e)) (x : Except δ α) :
    FailsOnly allowed (x.mapError f) := by
  cases x with
  | error e => exact failsOnly_error_iff.mpr (each e)
  | ok a => exact failsOnly_ok a

theorem FailsOnly.mapM {f : α → Except ε β} (each : ∀ x, FailsOnly allowed (f x)) (xs : List α) :
    FailsOnly allowed (xs.mapM f) := by
  induction xs with
  | nil => exact failsOnly_pure _
  | cons x rest ih =>
    rw [List.mapM_cons]
    exact (each x).bind fun _ => ih.bind fun _ => failsOnly_pure _

/-! ## Results under a condition -/

/-- Two results fail alike, and under `agree` succeed with the same value. -/
def Alike (agree : Prop) : Except ε α → Except ε α → Prop
  | .ok a, .ok b => agree → a = b
  | .error d, .error e => d = e
  | _, _ => False

variable {agree : Prop}

theorem Alike.refl (x : Except ε α) : Alike agree x x := by
  cases x with
  | error e => exact rfl
  | ok a => exact fun _ => rfl

theorem Alike.pure {a b : α} (same : agree → a = b) :
    Alike agree (Pure.pure a : Except ε α) (Pure.pure b) := same

theorem Alike.bind {x y : Except ε α} {f g : α → Except ε β} (first : Alike agree x y)
    (second : ∀ a b, (agree → a = b) → Alike agree (f a) (g b)) :
    Alike agree (x >>= f) (y >>= g) := by
  cases x with
  | error d =>
    cases y with
    | error e => exact first
    | ok b => exact first.elim
  | ok a =>
    cases y with
    | error e => exact first.elim
    | ok b => exact second a b first

theorem Alike.mapM {f g : α → Except ε β} {xs : List α}
    (each : ∀ x ∈ xs, Alike agree (f x) (g x)) : Alike agree (xs.mapM f) (xs.mapM g) := by
  induction xs with
  | nil => exact fun _ => rfl
  | cons x rest ih =>
    rw [List.mapM_cons, List.mapM_cons]
    apply Alike.bind (each x List.mem_cons_self)
    intro a b head
    apply Alike.bind (ih fun y member => each y (List.mem_cons_of_mem x member))
    intro as bs tail
    apply Alike.pure
    intro agrees
    rw [head agrees, tail agrees]

/-- Results that are alike are equal when one that succeeds brings about the
condition. -/
theorem Alike.eq {x y : Except ε α} (alike : Alike agree x y)
    (agrees : (∃ a, x = .ok a) → agree) : x = y := by
  cases x with
  | error d =>
    cases y with
    | error e => exact congrArg Except.error alike
    | ok b => exact alike.elim
  | ok a =>
    cases y with
    | error e => exact alike.elim
    | ok b => exact congrArg Except.ok (alike (agrees ⟨a, rfl⟩))

end Protoclass.Result
