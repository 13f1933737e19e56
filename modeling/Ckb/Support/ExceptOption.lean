import Mathlib.Data.List.Infix

/-!
Computations that may fail with an error or panic, as `ExceptT ε Option`: `none` is a panic and
`some (.error e)` an error the caller can handle. Bind is peeled apart by three inversion lemmas,
one per outcome, and a fold is reasoned about by an invariant that may name the elements already
folded.
-/

namespace ExceptT

variable {ε α β : Type}

/-- Rust's `Option::ok_or`: a missing value becomes the error `e`. -/
def okOr (x : Option α) (e : ε) : Except ε α :=
  match x with
  | some a => .ok a
  | none => .error e

@[simp] theorem okOr_some (a : α) (e : ε) : okOr (some a) e = .ok a := rfl

@[simp] theorem okOr_none (e : ε) : okOr (none : Option α) e = .error e := rfl

@[simp] theorem okOr_eq_ok {x : Option α} {e : ε} {a : α} : okOr x e = .ok a ↔ x = some a := by
  cases x <;> simp

@[simp] theorem okOr_eq_error {x : Option α} {e e' : ε} : okOr x e = .error e' ↔ x = none ∧ e = e' := by
  cases x <;> simp

theorem run_bind_eq_ok {x : ExceptT ε Option α} {f : α → ExceptT ε Option β} {b : β} :
    (x >>= f).run = some (.ok b) ↔ ∃ a, x.run = some (.ok a) ∧ (f a).run = some (.ok b) := by
  rw [run_bind]
  rcases x.run with _ | _ | a <;> simp [Option.bind_eq_bind]

theorem run_bind_eq_error {x : ExceptT ε Option α} {f : α → ExceptT ε Option β} {e : ε} :
    (x >>= f).run = some (.error e) ↔
      x.run = some (.error e) ∨ ∃ a, x.run = some (.ok a) ∧ (f a).run = some (.error e) := by
  rw [run_bind]
  rcases x.run with _ | _ | a <;> simp [Option.bind_eq_bind]

theorem run_bind_eq_none {x : ExceptT ε Option α} {f : α → ExceptT ε Option β} :
    (x >>= f).run = none ↔ x.run = none ∨ ∃ a, x.run = some (.ok a) ∧ (f a).run = none := by
  rw [run_bind]
  rcases x.run with _ | _ | a <;> simp [Option.bind_eq_bind]

theorem run_bind_toOption (x : ExceptT ε Option α) (f : α → ExceptT ε Option β) :
    (x >>= f).run.bind Except.toOption = (x.run.bind Except.toOption).bind fun a => (f a).run.bind Except.toOption := by
  rw [run_bind]
  rcases x.run with _ | _ | a <;> rfl

theorem run_bind_ne_none {x : ExceptT ε Option α} {f : α → ExceptT ε Option β} (first : x.run ≠ none)
    (next : ∀ a, x.run = some (.ok a) → (f a).run ≠ none) : (x >>= f).run ≠ none := by
  intro panicked
  rcases run_bind_eq_none.mp panicked with early | ⟨a, ran, late⟩
  · exact first early
  · exact next a ran late

theorem run_bind_eq_ok_iff_of_right {x : ExceptT ε Option α} {f g : α → ExceptT ε Option β} {P : β → Prop}
    {b : β} (same : ∀ a, x.run = some (.ok a) → ((f a).run = some (.ok b) ↔ (g a).run = some (.ok b) ∧ P b)) :
    (x >>= f).run = some (.ok b) ↔ (x >>= g).run = some (.ok b) ∧ P b := by
  simp only [run_bind_eq_ok]
  constructor
  · rintro ⟨a, first, rest⟩
    obtain ⟨rest, good⟩ := (same a first).mp rest
    exact ⟨⟨a, first, rest⟩, good⟩
  · rintro ⟨⟨a, first, rest⟩, good⟩
    exact ⟨a, first, (same a first).mpr ⟨rest, good⟩⟩

@[simp] theorem run_pure_eq_ok {a b : α} : (pure a : ExceptT ε Option α).run = some (.ok b) ↔ a = b := by
  simp [run_pure]

@[simp] theorem run_liftExcept (x : Except ε α) : (liftExcept x : ExceptT ε Option α).run = some x := by
  cases x <;> rfl

@[simp] theorem run_lift_some (a : α) : (ExceptT.lift (some a) : ExceptT ε Option α).run = some (.ok a) := rfl

theorem lift_some (a : α) : (ExceptT.lift (some a) : ExceptT ε Option α) = pure a := rfl

@[simp] theorem run_lift_none : (ExceptT.lift none : ExceptT ε Option α).run = none := rfl

@[simp] theorem run_lift_eq_ok {x : Option α} {a : α} :
    (ExceptT.lift x : ExceptT ε Option α).run = some (.ok a) ↔ x = some a := by
  cases x <;> simp

@[simp] theorem run_adapt_eq_ok {ε' : Type} {g : ε → ε'} {x : ExceptT ε Option α} {a : α} :
    (x.adapt g).run = some (.ok a) ↔ x.run = some (.ok a) := by
  rw [run_adapt]
  rcases x.run with _ | _ | b <;> simp [Except.mapError]

theorem run_adapt_eq_error {ε' : Type} {g : ε → ε'} {x : ExceptT ε Option α} {e' : ε'} :
    (x.adapt g).run = some (.error e') ↔ ∃ e, x.run = some (.error e) ∧ g e = e' := by
  rw [run_adapt]
  rcases x.run with _ | _ | b <;> simp [Except.mapError]

theorem run_adapt_ne_none {ε' : Type} {g : ε → ε'} {x : ExceptT ε Option α} (safe : x.run ≠ none) :
    (x.adapt g).run ≠ none := by
  rw [run_adapt]
  rcases panicked : x.run with _ | _ | b
  · exact absurd panicked safe
  all_goals simp

theorem run_liftExcept_ne_none (x : Except ε α) : (liftExcept x : ExceptT ε Option α).run ≠ none := by
  rw [run_liftExcept]
  exact Option.some_ne_none x

theorem run_bind_unit_eq_ok {x y : ExceptT ε Option Unit} :
    (x >>= fun _ => y).run = some (.ok ()) ↔ x.run = some (.ok ()) ∧ y.run = some (.ok ()) := by
  rw [run_bind_eq_ok]
  exact ⟨fun ⟨_, first, rest⟩ => ⟨first, rest⟩, fun ⟨first, rest⟩ => ⟨(), first, rest⟩⟩

/-- A guard that throws: it succeeds exactly when the condition fails and the rest succeeds. -/
@[simp] theorem run_ite_throw_eq_ok {c : Prop} [Decidable c] {e : ε} {x : ExceptT ε Option α} {a : α} :
    (if c then throw e else x).run = some (.ok a) ↔ ¬ c ∧ x.run = some (.ok a) := by
  by_cases holds : c <;> simp [holds, run_throw]

section Fold

variable {f : β → α → ExceptT ε Option β}

theorem foldlM_run_ok_induction (P : List α → β → Prop) (l : List α)
    (step : ∀ done a b b', done ++ [a] <+: l → P done b → (f b a).run = some (.ok b') →
      P (done ++ [a]) b')
    {init result : β} (start : P [] init) (folded : (l.foldlM f init).run = some (.ok result)) :
    P l result := by
  -- generalise over the part of the list already folded
  suffices general : ∀ (rest done : List α) {b : β}, done ++ rest = l → P done b →
      (rest.foldlM f b).run = some (.ok result) → P l result from
    general l [] rfl start folded
  intro rest
  induction rest with
  | nil =>
    intro done b split start folded
    cases folded
    simpa [← split] using start
  | cons a rest ih =>
    intro done b split start folded
    rw [List.foldlM_cons, run_bind_eq_ok] at folded
    obtain ⟨next, stepped, folded⟩ := folded
    have leading : done ++ [a] <+: l := ⟨rest, by simp [← split]⟩
    exact ih (done ++ [a]) (by simp [← split]) (step done a b next leading start stepped) folded

theorem foldlM_run_ok_invariant (P : β → Prop) (l : List α)
    (step : ∀ b a b', a ∈ l → P b → (f b a).run = some (.ok b') → P b') {init result : β}
    (start : P init) (folded : (l.foldlM f init).run = some (.ok result)) : P result :=
  foldlM_run_ok_induction (fun _ b => P b) l
    (fun _ a b b' leading => step b a b' (leading.subset (by simp))) start folded

theorem foldlM_run_ne_none (P : β → Prop) (l : List α)
    (keep : ∀ b a b', a ∈ l → P b → (f b a).run = some (.ok b') → P b')
    (safe : ∀ b a, a ∈ l → P b → (f b a).run ≠ none) {init : β} (start : P init) :
    (l.foldlM f init).run ≠ none := by
  induction l generalizing init with
  | nil => simp
  | cons a rest ih =>
    rw [List.foldlM_cons]
    refine run_bind_ne_none (safe init a List.mem_cons_self start) fun next stepped => ?_
    exact ih (fun b a' b' member => keep b a' b' (List.mem_cons_of_mem a member))
      (fun b a' member => safe b a' (List.mem_cons_of_mem a member))
      (keep init a next List.mem_cons_self start stepped)

/-- A property that every step carries backwards holds before a successful fold whenever it
holds after it. -/
theorem foldlM_run_ok_back (Good : β → Prop) (l : List α)
    (back : ∀ b a b', a ∈ l → (f b a).run = some (.ok b') → Good b' → Good b) {init result : β}
    (folded : (l.foldlM f init).run = some (.ok result)) (good : Good result) : Good init := by
  induction l generalizing init with
  | nil =>
    rw [List.foldlM_nil, run_pure_eq_ok] at folded
    exact folded ▸ good
  | cons a rest ih =>
    rw [List.foldlM_cons, run_bind_eq_ok] at folded
    obtain ⟨next, stepped, folded⟩ := folded
    exact back init a next List.mem_cons_self stepped
      (ih (fun b a' b' member => back b a' b' (List.mem_cons_of_mem a member)) folded)

/-- Two folds that differ by failing where a state leaves `Good`: when each step of `f` succeeds
exactly when the matching step of `g` does with a `Good` state, and a `Good` state after a step of
`g` was `Good` before it, the fold of `f` succeeds exactly when the fold of `g` does with a `Good`
result. -/
theorem foldlM_run_eq_ok_iff_of_step {g : β → α → ExceptT ε Option β} (Good : β → Prop) (l : List α)
    (step : ∀ b a b', a ∈ l → Good b →
      ((f b a).run = some (.ok b') ↔ (g b a).run = some (.ok b') ∧ Good b'))
    (back : ∀ b a b', a ∈ l → (g b a).run = some (.ok b') → Good b' → Good b)
    {init result : β} (start : Good init) :
    (l.foldlM f init).run = some (.ok result) ↔ (l.foldlM g init).run = some (.ok result) ∧ Good result := by
  induction l generalizing init with
  | nil =>
    simp only [List.foldlM_nil, run_pure_eq_ok]
    constructor
    · rintro rfl
      exact ⟨rfl, start⟩
    · exact fun done => done.1
  | cons a rest ih =>
    have step' := fun b a' b' member => step b a' b' (List.mem_cons_of_mem a member)
    have back' := fun b a' b' member => back b a' b' (List.mem_cons_of_mem a member)
    rw [List.foldlM_cons, List.foldlM_cons, run_bind_eq_ok, run_bind_eq_ok]
    constructor
    · rintro ⟨next, stepped, folded⟩
      obtain ⟨stepped, good⟩ := (step init a next List.mem_cons_self start).mp stepped
      obtain ⟨folded, goodResult⟩ := (ih step' back' good).mp folded
      exact ⟨⟨next, stepped, folded⟩, goodResult⟩
    · rintro ⟨⟨next, stepped, folded⟩, goodResult⟩
      have good := foldlM_run_ok_back Good rest back' folded goodResult
      exact ⟨next, (step init a next List.mem_cons_self start).mpr ⟨stepped, good⟩,
        (ih step' back' good).mpr ⟨folded, goodResult⟩⟩

theorem forM_run_eq_ok_iff {f : α → ExceptT ε Option Unit} (l : List α) :
    (l.forM f).run = some (.ok ()) ↔ ∀ a ∈ l, (f a).run = some (.ok ()) := by
  induction l with
  | nil => exact ⟨fun _ _ member => absurd member List.not_mem_nil, fun _ => rfl⟩
  | cons a rest ih =>
    rw [List.forM_eq_forM, List.forM_cons, run_bind_eq_ok, List.forall_mem_cons, ← ih]
    constructor
    · rintro ⟨⟨⟩, first, rest⟩
      exact ⟨first, rest⟩
    · rintro ⟨first, rest⟩
      exact ⟨(), first, rest⟩

end Fold

theorem mapM_run_eq_ok {f : α → ExceptT ε Option β} {g : α → β} (l : List α)
    (each : ∀ a ∈ l, (f a).run = some (.ok (g a))) : (l.mapM f).run = some (.ok (l.map g)) := by
  induction l with
  | nil => rfl
  | cons a rest ih =>
    rw [List.mapM_cons, List.map_cons]
    apply run_bind_eq_ok.mpr
    refine ⟨g a, each a List.mem_cons_self, run_bind_eq_ok.mpr ⟨rest.map g, ?_, rfl⟩⟩
    exact ih fun b member => each b (List.mem_cons_of_mem a member)

end ExceptT

namespace Except

variable {ε α β : Type} {f : β → α → Except ε β}

@[simp] theorem ok_bind (a : α) (g : α → Except ε β) : (Except.ok a >>= g) = g a := rfl

@[simp] theorem mapError_eq_ok {ε' : Type} {x : Except ε α} {g : ε → ε'} {a : α} : x.mapError g = .ok a ↔ x = .ok a := by
  cases x <;> simp [Except.mapError]

@[simp] theorem throw_bind (e : ε) (g : α → Except ε β) : (throw e >>= g) = throw e := rfl

@[simp] theorem ite_throw_eq_ok {c : Prop} [Decidable c] {e : ε} {x : Except ε α} {a : α} :
    (if c then throw e else x) = .ok a ↔ ¬ c ∧ x = .ok a := by
  by_cases holds : c <;> simp [holds, throw, throwThe, MonadExceptOf.throw]

theorem bind_eq_ok {x : Except ε α} {g : α → Except ε β} {b : β} :
    (x >>= g) = .ok b ↔ ∃ a, x = .ok a ∧ g a = .ok b := by
  cases x <;> simp [bind, Except.bind]

theorem mapM_eq_ok {g : α → Except ε β} {v : α → β} (l : List α) (each : ∀ a ∈ l, g a = .ok (v a)) :
    l.mapM g = .ok (l.map v) := by
  induction l with
  | nil => rfl
  | cons a rest ih =>
    rw [List.mapM_cons, List.map_cons, each a List.mem_cons_self, ok_bind,
      ih fun b member => each b (List.mem_cons_of_mem a member)]
    rfl

theorem bind_eq_error {x : Except ε α} {g : α → Except ε β} {e : ε} :
    (x >>= g) = .error e ↔ x = .error e ∨ ∃ a, x = .ok a ∧ g a = .error e := by
  cases x <;> simp [bind, Except.bind]

theorem mapError_eq_error {ε' : Type} {x : Except ε α} {g : ε → ε'} {e' : ε'} :
    x.mapError g = .error e' ↔ ∃ e, x = .error e ∧ g e = e' := by
  cases x <;> simp [Except.mapError]

theorem bind_unit_eq_ok {x y : Except ε Unit} : (x >>= fun _ => y) = .ok () ↔ x = .ok () ∧ y = .ok () := by
  rw [bind_eq_ok]
  exact ⟨fun ⟨_, first, rest⟩ => ⟨first, rest⟩, fun ⟨first, rest⟩ => ⟨(), first, rest⟩⟩

theorem bind_unit_eq_error {x y : Except ε Unit} {e : ε} :
    (x >>= fun _ => y) = .error e → x = .error e ∨ y = .error e := by
  rw [bind_eq_error]
  rintro (first | ⟨_, -, rest⟩)
  · exact Or.inl first
  · exact Or.inr rest

theorem mapM_ok_iff {g : α → Except ε β} (l : List α) :
    (∃ results, l.mapM g = .ok results) ↔ ∀ a ∈ l, ∃ b, g a = .ok b := by
  induction l with
  | nil => exact ⟨fun _ _ member => absurd member List.not_mem_nil, fun _ => ⟨[], rfl⟩⟩
  | cons a rest ih =>
    rw [List.mapM_cons, List.forall_mem_cons, ← ih]
    cases g a with
    | error e => simp [bind, Except.bind]
    | ok b =>
      rw [ok_bind]
      cases rest.mapM g with
      | error e => simp [bind, Except.bind]
      | ok results => simp [bind, Except.bind, pure, Except.pure]

theorem mapM_eq_error_iff {g : α → Except ε β} (l : List α) (e : ε) :
    l.mapM g = .error e ↔
      ∃ before a after, l = before ++ a :: after ∧ (∀ b ∈ before, ∃ c, g b = .ok c) ∧ g a = .error e := by
  induction l with
  | nil => simp [pure, Except.pure]
  | cons a rest ih =>
    rw [List.mapM_cons]
    cases first : g a with
    | error e₀ =>
      -- the first call fails: nothing comes before it
      simp only [bind, Except.bind, Except.error.injEq]
      constructor
      · rintro rfl
        exact ⟨[], a, rest, rfl, fun _ member => absurd member List.not_mem_nil, first⟩
      · rintro ⟨before, b, after, split, passed, failed⟩
        cases before with
        | nil =>
          obtain ⟨rfl, -⟩ := List.cons.inj split
          rw [first] at failed
          exact Except.error.inj failed
        | cons c before =>
          obtain ⟨same, -⟩ := List.cons.inj split
          obtain ⟨_, ok⟩ := passed c List.mem_cons_self
          rw [← same, first] at ok
          cases ok
    | ok b₀ =>
      rw [ok_bind, bind_eq_error]
      have never : ∀ results, (pure (b₀ :: results) : Except ε (List β)) ≠ .error e := fun _ stuck => by cases stuck
      simp only [never, and_false, exists_false, or_false, ih]
      constructor
      · rintro ⟨before, b, after, split, passed, failed⟩
        refine ⟨a :: before, b, after, by rw [split, List.cons_append], ?_, failed⟩
        intro c member
        rcases List.mem_cons.mp member with same | later
        · exact ⟨b₀, same ▸ first⟩
        · exact passed c later
      · rintro ⟨before, b, after, split, passed, failed⟩
        cases before with
        | nil =>
          obtain ⟨rfl, -⟩ := List.cons.inj split
          rw [first] at failed
          cases failed
        | cons c before =>
          obtain ⟨rfl, rest_eq⟩ := List.cons.inj split
          exact ⟨before, b, after, rest_eq, fun d member => passed d (List.mem_cons_of_mem _ member), failed⟩

/-- A test over the splittings of `a :: rest` is the test of `a` with nothing before it, and the
tests of the splittings of `rest` with `a` in front. -/
theorem forall_split_cons {R : List α → α → Prop} {a : α} {rest : List α} :
    (∀ done b tail, a :: rest = done ++ b :: tail → R done b) ↔
      R [] a ∧ ∀ done b tail, rest = done ++ b :: tail → R (a :: done) b := by
  constructor
  · intro all
    exact ⟨all [] a rest rfl, fun done b tail split => all (a :: done) b tail (by rw [split, List.cons_append])⟩
  · rintro ⟨first, later⟩ done b tail split
    cases done with
    | nil =>
      obtain ⟨rfl, -⟩ := List.cons.inj split
      exact first
    | cons c done =>
      rw [List.cons_append, List.cons.injEq] at split
      obtain ⟨rfl, rest_eq⟩ := split
      exact later done b tail rest_eq

theorem forall_split_iff_forall_mem {Q : α → Prop} {l : List α} :
    (∀ done a rest, l = done ++ a :: rest → Q a) ↔ ∀ a ∈ l, Q a := by
  constructor
  · intro all a member
    obtain ⟨done, rest, split⟩ := List.mem_iff_append.mp member
    exact all done a rest split
  · intro all done a rest split
    exact all a (by simp [split])

/-- A fold in `Except` succeeds exactly when every element passes its test given the elements
before it, when each step succeeds exactly on the elements that pass and keeps an invariant that
may name the elements already folded. -/
theorem foldlM_ok_iff_split (P : List α → β → Prop) (Q : List α → α → Prop) (l : List α)
    (keep : ∀ done a b b', done ++ [a] <+: l → P done b → f b a = .ok b' → P (done ++ [a]) b')
    (passes : ∀ done a b, done ++ [a] <+: l → P done b → ((∃ b', f b a = .ok b') ↔ Q done a))
    {init : β} (start : P [] init) :
    ((∃ result, l.foldlM f init = .ok result) ↔ ∀ done a rest, l = done ++ a :: rest → Q done a) ∧
      ∀ result, l.foldlM f init = .ok result → P l result := by
  -- generalise over the part of the list already folded
  suffices general : ∀ (rest done : List α) {b : β}, done ++ rest = l → P done b →
      ((∃ result, rest.foldlM f b = .ok result) ↔
        ∀ done' a rest', rest = done' ++ a :: rest' → Q (done ++ done') a) ∧
        ∀ result, rest.foldlM f b = .ok result → P l result from
    general l [] rfl start
  intro rest
  induction rest with
  | nil =>
    intro done b split start
    refine ⟨⟨fun _ done' a rest' empty => by simp at empty, fun _ => ⟨b, rfl⟩⟩, fun result folded => ?_⟩
    simp only [List.foldlM_nil] at folded
    cases folded
    simpa [← split] using start
  | cons a rest ih =>
    intro done b split start
    have leading : done ++ [a] <+: l := ⟨rest, by simp [← split]⟩
    have split' : done ++ [a] ++ rest = l := by simp [← split]
    rw [List.foldlM_cons, forall_split_cons]
    cases stepped : f b a with
    | error e =>
      have failing : ¬ Q (done ++ []) a := fun passing => by
        obtain ⟨b', ok⟩ := (passes done a b leading start).mpr (by simpa using passing)
        rw [stepped] at ok
        cases ok
      have stops : ∀ g : β → Except ε β, (Except.error e >>= g) = .error e := fun _ => rfl
      rw [stops]
      refine ⟨⟨?_, fun all => absurd all.1 failing⟩, fun _ folded => by cases folded⟩
      rintro ⟨_, folded⟩
      cases folded
    | ok next =>
      have passing : Q done a := (passes done a b leading start).mp ⟨next, stepped⟩
      obtain ⟨ok, kept⟩ := ih (done ++ [a]) split' (keep done a b next leading start stepped)
      have continues : ∀ g : β → Except ε β, (Except.ok next >>= g) = g next := fun _ => rfl
      rw [continues]
      refine ⟨?_, kept⟩
      rw [ok]
      simp [passing]

/-- A fold in `Except` succeeds exactly when every element passes its test, when each step
succeeds exactly on the elements that pass and keeps an invariant that may name the elements
already folded. -/
theorem foldlM_ok_iff (P : List α → β → Prop) (Q : α → Prop) (l : List α)
    (keep : ∀ done a b b', done ++ [a] <+: l → P done b → f b a = .ok b' → P (done ++ [a]) b')
    (passes : ∀ done a b, done ++ [a] <+: l → P done b → ((∃ b', f b a = .ok b') ↔ Q a))
    {init : β} (start : P [] init) :
    ((∃ result, l.foldlM f init = .ok result) ↔ ∀ a ∈ l, Q a) ∧
      ∀ result, l.foldlM f init = .ok result → P l result := by
  obtain ⟨ok, kept⟩ := foldlM_ok_iff_split P (fun _ a => Q a) l keep passes start
  exact ⟨ok.trans forall_split_iff_forall_mem, kept⟩

end Except
