import Mathlib.Data.List.Forall2
import Dataflow.Halt

/-!
# Dataflow.Proofs.Result

How computations on a tree come to an answer.  A computation that answers can
be taken apart into steps that answer (`map_eq_ok_iff`, `mapM_eq_ok_iff`,
next to `bind_eq_ok_iff`).  Two computations can be followed side by side: the
one answers where the other does (`Leads`).  A computation that is *fault free*
ends in an answer or in a shape error; `attempt` turns such a computation into
one that always answers.  One that is *safe* may also come to no end (`Safe`).
-/

namespace Dataflow

variable {α β γ : Type}

/-! ## Answers -/

@[simp] theorem ok_bind (a : α) (f : α → Result β) : (Except.ok a >>= f) = f a := rfl

@[simp] theorem error_bind (halt : Halt) (f : α → Result β) :
    ((Except.error halt : Result α) >>= f) = .error halt := rfl

@[simp] theorem pure_eq_ok (a : α) : (pure a : Result α) = .ok a := rfl

@[simp] theorem map_ok (f : α → β) (a : α) : (f <$> (Except.ok a : Result α)) = .ok (f a) := rfl

theorem map_eq_ok_iff {f : α → β} {x : Result α} {b : β} :
    (f <$> x) = .ok b ↔ ∃ a, x = .ok a ∧ f a = b := by
  cases x with
  | error halt => simp [Functor.map, Except.map]
  | ok a => simp

/-- A list of computations answers exactly if each of them does. -/
theorem mapM_eq_ok_iff {f : α → Result β} {xs : List α} {ys : List β} :
    xs.mapM f = .ok ys ↔ List.Forall₂ (fun x y => f x = .ok y) xs ys := by
  induction xs generalizing ys with
  | nil => simp [eq_comm]
  | cons x xs ih =>
    rw [List.mapM_cons, bind_eq_ok_iff]
    constructor
    · intro h
      obtain ⟨y, hy, h⟩ := h
      obtain ⟨rest, hrest, h⟩ := bind_eq_ok_iff.mp h
      cases h
      exact .cons hy (ih.mp hrest)
    · intro h
      cases h with
      | cons hy hrest => exact ⟨_, hy, bind_eq_ok_iff.mpr ⟨_, ih.mpr hrest, rfl⟩⟩

/-- A list of computations ends as the first of them that does not answer. -/
theorem mapM_eq_error_iff {f : α → Result β} {xs : List α} {halt : Halt} :
    xs.mapM f = .error halt ↔ ∃ before x after, xs = before ++ x :: after ∧
      (∀ y ∈ before, ∃ b, f y = .ok b) ∧ f x = .error halt := by
  induction xs with
  | nil => simp
  | cons y xs ih =>
    rw [List.mapM_cons]
    cases hy : f y with
    | error found =>
      constructor
      · intro h
        cases h
        exact ⟨[], y, xs, rfl, by simp, hy⟩
      · rintro ⟨before, x, after, hsplit, hbefore, hx⟩
        cases before with
        | nil =>
          cases hsplit
          rw [hy] at hx
          cases hx
          rfl
        | cons z before =>
          cases hsplit
          obtain ⟨b, hb⟩ := hbefore y List.mem_cons_self
          rw [hy] at hb
          cases hb
    | ok b =>
      have hrest : (Except.ok b >>= fun b => xs.mapM f >>= fun bs => pure (b :: bs)) =
          Except.error halt ↔ xs.mapM f = .error halt := by
        cases xs.mapM f <;> simp
      rw [hrest, ih]
      constructor
      · rintro ⟨before, x, after, rfl, hbefore, hx⟩
        exact ⟨y :: before, x, after, rfl, List.forall_mem_cons.mpr ⟨⟨b, hy⟩, hbefore⟩, hx⟩
      · rintro ⟨before, x, after, hsplit, hbefore, hx⟩
        cases before with
        | nil =>
          cases hsplit
          rw [hy] at hx
          cases hx
        | cons z before =>
          cases hsplit
          exact ⟨before, x, after, rfl, (List.forall_mem_cons.mp hbefore).2, hx⟩

theorem mapM_congr {f g : α → Result β} {xs : List α} (h : ∀ x ∈ xs, f x = g x) :
    xs.mapM f = xs.mapM g := by
  induction xs with
  | nil => rfl
  | cons x xs ih =>
    have hrest := ih fun y hy => h y (List.mem_cons_of_mem x hy)
    rw [List.mapM_cons, List.mapM_cons, h x List.mem_cons_self, hrest]

/-- Two lists of computations whose answers go together one by one. -/
theorem mapM_comm {α' : Type} {f : α → Result β} {f' : α' → Result γ} {g : β → γ} {h : α → α'}
    {xs : List α} (hstep : ∀ x ∈ xs, f' (h x) = g <$> f x) :
    (xs.map h).mapM f' = List.map g <$> xs.mapM f := by
  induction xs with
  | nil => rfl
  | cons x xs ih =>
    have hrest := ih fun y hy => hstep y (List.mem_cons_of_mem x hy)
    rw [List.map_cons, List.mapM_cons, List.mapM_cons, hstep x List.mem_cons_self, hrest]
    cases f x with
    | error halt => rfl
    | ok y => cases xs.mapM f <;> rfl

/-- Answers can be worked on one by one or together. -/
theorem mapM_map_answer (f : α → Result β) (g : β → γ) (xs : List α) :
    (xs.mapM fun x => do return g (← f x)) = List.map g <$> xs.mapM f := by
  conv_lhs => rw [← List.map_id xs]
  exact mapM_comm fun x _ => bind_pure_comp g (f x)

/-- Computations on the parts of a list, one part after the other. -/
theorem mapM_flatMap (f : α → List β) (g : β → Result γ) (xs : List α) :
    (xs.flatMap f).mapM g = List.flatten <$> xs.mapM fun x => (f x).mapM g := by
  induction xs with
  | nil => rfl
  | cons x xs ih =>
    rw [List.flatMap_cons, List.mapM_append, List.mapM_cons, ih]
    cases (f x).mapM g with
    | error halt => rfl
    | ok ys => cases xs.mapM fun x => (f x).mapM g <;> rfl

/-- Answers can be taken in as they come or all together. -/
theorem foldlM_answers (f : α → Result β) (g : γ → β → γ) (start : γ) (xs : List α) :
    (xs.foldlM (fun state x => do return g state (← f x)) start) =
      (fun ys => ys.foldl g start) <$> xs.mapM f := by
  induction xs generalizing start with
  | nil => rfl
  | cons x xs ih =>
    rw [List.foldlM_cons, List.mapM_cons]
    cases f x with
    | error halt => rfl
    | ok y =>
      have hrest := ih (g start y)
      simp only [ok_bind, pure_eq_ok] at hrest ⊢
      rw [hrest]
      cases xs.mapM f <;> rfl

/-- Two runs whose states go together at every step. -/
theorem foldlM_comm {α' : Type} {f : β → α → Result β} {f' : γ → α' → Result γ} {g : β → γ}
    {h : α → α'} (hstep : ∀ state x, f' (g state) (h x) = g <$> f state x) (start : β)
    (xs : List α) : (xs.map h).foldlM f' (g start) = g <$> xs.foldlM f start := by
  induction xs generalizing start with
  | nil => rfl
  | cons x xs ih =>
    rw [List.map_cons, List.foldlM_cons, List.foldlM_cons, hstep]
    cases f start x with
    | error halt => rfl
    | ok state => exact ih state

/-- Where each answer determines the answer of another computation, all of them
determine those of the others. -/
theorem mapM_eq_ok_of_imp {f : α → Result β} {g : α → Result γ} {convert : β → γ} {xs : List α}
    {ys : List β} (himp : ∀ x ∈ xs, ∀ y, f x = .ok y → g x = .ok (convert y))
    (h : xs.mapM f = .ok ys) : xs.mapM g = .ok (ys.map convert) := by
  have hall := mapM_eq_ok_iff.mp h
  clear h
  induction hall with
  | nil => rfl
  | cons hx _ ih =>
    have hhead := himp _ List.mem_cons_self _ hx
    have htail := ih fun x' hx' => himp x' (List.mem_cons_of_mem _ hx')
    rw [List.mapM_cons, hhead, htail]
    rfl

/-- Computations that all answer answer together. -/
theorem exists_mapM_eq_ok {f : α → Result β} {xs : List α}
    (h : ∀ x ∈ xs, ∃ y, f x = .ok y) : ∃ ys, xs.mapM f = .ok ys := by
  induction xs with
  | nil => exact ⟨[], rfl⟩
  | cons x xs ih =>
    obtain ⟨y, hy⟩ := h x List.mem_cons_self
    obtain ⟨ys, hys⟩ := ih fun x' hx' => h x' (List.mem_cons_of_mem x hx')
    exact ⟨y :: ys, by rw [List.mapM_cons, hy, hys]; rfl⟩

/-- Every answer of a list of computations is the answer of one of them. -/
theorem exists_of_mem_mapM {f : α → Result β} {xs : List α} {ys : List β} {y : β}
    (h : xs.mapM f = .ok ys) (hy : y ∈ ys) : ∃ x ∈ xs, f x = .ok y := by
  have hall := mapM_eq_ok_iff.mp h
  clear h
  induction hall with
  | nil => cases hy
  | cons hx _ ih =>
    obtain rfl | hy := List.mem_cons.mp hy
    · exact ⟨_, List.mem_cons_self, hx⟩
    · obtain ⟨x', hx', hfx'⟩ := ih hy
      exact ⟨x', List.mem_cons_of_mem _ hx', hfx'⟩

/-- Each of a list of computations that answer together answers. -/
theorem exists_of_mem_of_mapM {f : α → Result β} {xs : List α} {ys : List β} {x : α}
    (h : xs.mapM f = .ok ys) (hx : x ∈ xs) : ∃ y ∈ ys, f x = .ok y := by
  have hall := mapM_eq_ok_iff.mp h
  clear h
  induction hall with
  | nil => cases hx
  | cons hy _ ih =>
    obtain rfl | hx := List.mem_cons.mp hx
    · exact ⟨_, List.mem_cons_self, hy⟩
    · obtain ⟨y', hy', hfy'⟩ := ih hx
      exact ⟨y', List.mem_cons_of_mem _ hy', hfy'⟩

/-! ## Computations side by side -/

/-- Where the first computation answers, the second does, and their answers are
related. -/
def Leads {α' : Type} (R : α → α' → Prop) (x : Result α) (x' : Result α') : Prop :=
  ∀ a, x = .ok a → ∃ a', x' = .ok a' ∧ R a a'

section Leads

variable {α' β' : Type} {R : α → α' → Prop} {S : β → β' → Prop}

theorem leads_ok {a : α} {a' : α'} (h : R a a') : Leads R (.ok a) (.ok a') := by
  intro b hb
  cases hb
  exact ⟨a', rfl, h⟩

theorem Leads.bind {x : Result α} {x' : Result α'} {f : α → Result β} {f' : α' → Result β'}
    (hx : Leads R x x') (hf : ∀ a a', R a a' → Leads S (f a) (f' a')) :
    Leads S (x >>= f) (x' >>= f') := by
  intro b hb
  obtain ⟨a, ha, hb⟩ := bind_eq_ok_iff.mp hb
  obtain ⟨a', ha', hR⟩ := hx a ha
  obtain ⟨b', hb', hS⟩ := hf a a' hR b hb
  exact ⟨b', bind_eq_ok_iff.mpr ⟨a', ha', hb'⟩, hS⟩

theorem leads_mapM {f : α → Result β} {f' : α' → Result β'} {xs : List α} {xs' : List α'}
    (hxs : List.Forall₂ R xs xs') (hf : ∀ x x', R x x' → Leads S (f x) (f' x')) :
    Leads (List.Forall₂ S) (xs.mapM f) (xs'.mapM f') := by
  induction hxs with
  | nil => exact leads_ok .nil
  | cons hx _ ih =>
    rw [List.mapM_cons, List.mapM_cons]
    refine (hf _ _ hx).bind fun y y' hy => ih.bind fun ys ys' hys => ?_
    exact leads_ok (.cons hy hys)

/-- A run leads along with another if every step does. -/
theorem leads_foldlM {f : β → α → Result β} {f' : β' → α → Result β'} {xs : List α}
    (hf : ∀ x ∈ xs, ∀ state state', S state state' → Leads S (f state x) (f' state' x))
    {start : β} {start' : β'} (h : S start start') :
    Leads S (xs.foldlM f start) (xs.foldlM f' start') := by
  induction xs generalizing start start' with
  | nil => exact leads_ok h
  | cons x xs ih =>
    rw [List.foldlM_cons, List.foldlM_cons]
    refine (hf x List.mem_cons_self start start' h).bind fun state state' hstate => ?_
    exact ih (fun y hy => hf y (List.mem_cons_of_mem x hy)) hstate

end Leads

/-! ## Computations without faults -/

/-- A computation that ends in an answer or in a shape error. -/
def FaultFree (x : Result α) : Prop := ∀ fault, x ≠ abort fault

theorem faultFree_ok (a : α) : FaultFree (.ok a : Result α) := by
  intro fault h
  cases h

theorem faultFree_malformed (error : ShapeError) : FaultFree (malformed error : Result α) := by
  intro fault h
  cases h

theorem FaultFree.bind {x : Result α} {f : α → Result β} (hx : FaultFree x)
    (hf : ∀ a, x = .ok a → FaultFree (f a)) : FaultFree (x >>= f) := by
  cases x with
  | ok a => exact hf a rfl
  | error halt =>
    cases halt with
    | shape error => exact faultFree_malformed error
    | fault fault => exact absurd rfl (hx fault)

theorem FaultFree.map {x : Result α} (hx : FaultFree x) (f : α → β) : FaultFree (f <$> x) := by
  cases x with
  | ok a => exact faultFree_ok (f a)
  | error halt =>
    cases halt with
    | shape error => exact faultFree_malformed error
    | fault fault => exact absurd rfl (hx fault)

theorem faultFree_mapM {f : α → Result β} {xs : List α} (h : ∀ x ∈ xs, FaultFree (f x)) :
    FaultFree (xs.mapM f) := by
  induction xs with
  | nil => exact faultFree_ok []
  | cons x xs ih =>
    rw [List.mapM_cons]
    refine (h x List.mem_cons_self).bind fun y _ => ?_
    refine (ih fun x' hx' => h x' (List.mem_cons_of_mem x hx')).bind fun ys _ => ?_
    exact faultFree_ok (y :: ys)

/-- What a fault-free computation comes to can be looked at. -/
theorem FaultFree.exists_attempt {x : Result α} (hx : FaultFree x) :
    ∃ outcome, attempt x = .ok outcome := by
  cases x with
  | ok a => exact ⟨.ok a, rfl⟩
  | error halt =>
    cases halt with
    | shape error => exact ⟨.error error, rfl⟩
    | fault fault => exact absurd rfl (hx fault)

/-! ## Computations that fault for one reason only -/

/-- A computation whose answer has a property.  It ends in a shape error only if
`S` holds, and in a fault only if a chain of nodes does not end and `E` holds. -/
def Safe (S E : Prop) (P : α → Prop) : Result α → Prop
  | .ok a => P a
  | .error (.shape _) => S
  | .error (.fault fault) => fault = .endless ∧ E

section Safe

variable {S E : Prop} {P : α → Prop} {Q : β → Prop} {x : Result α}

theorem FaultFree.safe (h : FaultFree x) : Safe True E (fun a => x = .ok a) x := by
  cases x with
  | ok a => exact rfl
  | error halt =>
    cases halt with
    | shape error => trivial
    | fault fault => exact absurd rfl (h fault)

theorem Safe.imp {Q : α → Prop} (h : Safe S E P x) (himp : ∀ a, x = .ok a → P a → Q a) :
    Safe S E Q x := by
  cases x with
  | ok a => exact himp a rfl h
  | error halt => cases halt <;> exact h

theorem Safe.bind {f : α → Result β} (h : Safe S E P x) (hf : ∀ a, P a → Safe S E Q (f a)) :
    Safe S E Q (x >>= f) := by
  cases x with
  | ok a => exact hf a h
  | error halt => cases halt <;> exact h

/-- A shape error that is looked at ends nothing. -/
theorem Safe.attempt (h : Safe True E P x) :
    Safe S E (fun outcome => ∀ a, outcome = .ok a → P a) (attempt x) := by
  cases x with
  | ok a =>
    rintro _ ⟨⟩
    exact h
  | error halt =>
    cases halt with
    | shape error => exact nofun
    | fault fault => exact h

theorem safe_mapM {f : α → Result β} {xs : List α} (h : ∀ x ∈ xs, Safe S E Q (f x)) :
    Safe S E (fun ys => ∀ y ∈ ys, Q y) (xs.mapM f) := by
  induction xs with
  | nil => exact List.forall_mem_nil _
  | cons x xs ih =>
    rw [List.mapM_cons]
    refine (h x List.mem_cons_self).bind fun y hy => ?_
    refine (ih fun x' hx' => h x' (List.mem_cons_of_mem x hx')).bind fun ys hys => ?_
    exact List.forall_mem_cons.mpr ⟨hy, hys⟩

theorem safe_mapM_true {f : α → Result β} {xs : List α}
    (h : ∀ x ∈ xs, Safe S E (fun _ => True) (f x)) : Safe S E (fun _ => True) (xs.mapM f) :=
  (safe_mapM h).imp fun _ _ _ => trivial

theorem Safe.of_ok (h : Safe S E P x) {a : α} (hx : x = .ok a) : P a := by
  rw [hx] at h
  exact h

theorem Safe.of_abort (h : Safe S E P x) {fault : Fault} (hx : x = abort fault) :
    fault = .endless ∧ E := by
  rw [hx] at h
  exact h

/-- A computation that no shape error ends answers or does not end. -/
theorem Safe.answers_or (h : Safe False E P x) :
    (∃ a, x = .ok a ∧ P a) ∨ x = abort .endless ∧ E := by
  cases x with
  | ok a => exact .inl ⟨a, rfl, h⟩
  | error halt =>
    cases halt with
    | shape error => exact absurd h id
    | fault fault => exact .inr ⟨h.1 ▸ rfl, h.2⟩

end Safe

/-! ## What a computation ends in -/

/-- A computation whose answer has a property, and whose shape error has another if
it ends in one.  Nothing is said about faults. -/
def Ensures (P : α → Prop) (S : ShapeError → Prop) : Result α → Prop
  | .ok a => P a
  | .error (.shape error) => S error
  | .error (.fault _) => True

section Ensures

variable {P : α → Prop} {Q : β → Prop} {S : ShapeError → Prop} {x : Result α}

theorem Ensures.imp {P' : α → Prop} {S' : ShapeError → Prop} (h : Ensures P S x)
    (hok : ∀ a, P a → P' a) (hshape : ∀ error, S error → S' error) : Ensures P' S' x := by
  cases x with
  | ok a => exact hok a h
  | error halt =>
    cases halt with
    | shape error => exact hshape error h
    | fault fault => trivial

theorem Ensures.bind {f : α → Result β} (h : Ensures P S x)
    (hf : ∀ a, P a → Ensures Q S (f a)) : Ensures Q S (x >>= f) := by
  cases x with
  | ok a => exact hf a h
  | error halt => cases halt <;> exact h

theorem Ensures.map {f : α → β} (h : Ensures P S x) (hf : ∀ a, P a → Q (f a)) :
    Ensures Q S (f <$> x) := by
  cases x with
  | ok a => exact hf a h
  | error halt => cases halt <;> exact h

theorem ensures_mapM {f : α → Result β} {xs : List α} (h : ∀ x ∈ xs, Ensures Q S (f x)) :
    Ensures (fun ys => ∀ y ∈ ys, Q y) S (xs.mapM f) := by
  induction xs with
  | nil => exact List.forall_mem_nil _
  | cons x xs ih =>
    rw [List.mapM_cons]
    refine (h x List.mem_cons_self).bind fun y hy => ?_
    refine (ih fun x' hx' => h x' (List.mem_cons_of_mem x hx')).bind fun ys hys => ?_
    exact List.forall_mem_cons.mpr ⟨hy, hys⟩

theorem Ensures.of_ok (h : Ensures P S x) {a : α} (hx : x = .ok a) : P a := by
  rw [hx] at h
  exact h

theorem Ensures.of_malformed (h : Ensures P S x) {error : ShapeError}
    (hx : x = malformed error) : S error := by
  rw [hx] at h
  exact h

end Ensures

end Dataflow
