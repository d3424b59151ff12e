import Mathlib.Data.List.Forall2

/-!
# Library — programs that share a state

A *program* goes in atomic steps: each writes the shared state, and goes on as what it has read
says.  In the end the program answers, or raises.  Programs run side by side, in the order of a
schedule.

* `Alike`: two programs that do the same to related states and come to related answers; it is kept
  by what programs are made with (`Alike.bind`, `Alike.call`, `Alike.mapM`).
* `alike_run`: of programs that are alike, scheduled alike, related states and answers are left.
-/

namespace Resume

/-- A program over the state `σ`, which raises an `ε` or answers an `α`. -/
inductive Prog (σ ε α : Type) where
  | answer (a : α)
  | raise (e : ε)
  | step (write : σ → σ) (next : σ → Prog σ ε α)

variable {σ τ ε α β γ δ : Type}

namespace Prog

def bind : Prog σ ε α → (α → Prog σ ε β) → Prog σ ε β
  | answer a, f => f a
  | raise e, _ => raise e
  | step write next, f => step write fun s => (next s).bind f

instance : Monad (Prog σ ε) where
  pure := answer
  bind := bind

theorem bind_answer (p : Prog σ ε α) : p.bind answer = p := by
  induction p with
  | answer a => rfl
  | raise e => rfl
  | step write next ih => exact congrArg (step write) (funext ih)

theorem bind_assoc (p : Prog σ ε α) (f : α → Prog σ ε β) (g : β → Prog σ ε γ) :
    (p.bind f).bind g = p.bind fun a => (f a).bind g := by
  induction p with
  | answer a => rfl
  | raise e => rfl
  | step write next ih => exact congrArg (step write) (funext ih)

instance : LawfulMonad (Prog σ ε) :=
  LawfulMonad.mk' (Prog σ ε) bind_answer (fun _ _ => rfl) bind_assoc

/-- One step: what it leaves and answers; where it raises, it leaves the state alone. -/
def call (f : σ → Except ε (σ × α)) : Prog σ ε α :=
  .step
    (fun s =>
      match f s with
      | .ok (s', _) => s'
      | .error _ => s)
    fun s =>
      match f s with
      | .ok (_, a) => answer a
      | .error e => raise e

/-- A step that reads. -/
def ask (f : σ → α) : Prog σ ε α := call fun s => .ok (s, f s)

/-- What is raised is handled. -/
def handle {ε' : Type} (f : ε → Prog σ ε' α) : Prog σ ε α → Prog σ ε' α
  | answer a => answer a
  | raise e => f e
  | step write next => step write fun s => (next s).handle f

/-- What the program has come to, if it is at its end. -/
def result? : Prog σ ε α → Option (Except ε α)
  | answer a => some (.ok a)
  | raise e => some (.error e)
  | step _ _ => none

end Prog

/-! ### Side by side -/

structure State (σ ε α : Type) where
  shared : σ
  progs : List (Prog σ ε α)

/-- A program comes in, or one that is in takes a step. -/
inductive Act (ρ : Type) where
  | arrive (request : ρ)
  | step (k : Nat)

namespace State
variable {ρ : Type} (prog : ρ → Prog σ ε α)

def next (s : State σ ε α) : Act ρ → State σ ε α
  | .arrive request => { s with progs := s.progs ++ [prog request] }
  | .step k =>
    match s.progs[k]? with
    | some (.step write next) => ⟨write s.shared, s.progs.set k (next s.shared)⟩
    | _ => s

def run (shared : σ) (acts : List (Act ρ)) : State σ ε α := acts.foldl (next prog) ⟨shared, []⟩

/-- What the programs have come to. -/
def results (s : State σ ε α) : List (Option (Except ε α)) := s.progs.map Prog.result?

end State

/-! ### Alike -/

section
variable (R : σ → τ → Prop)

/-- From related states the programs write related ones, and come to related answers, or raise the
same. -/
inductive Alike (A : α → β → Prop) : Prog σ ε α → Prog τ ε β → Prop where
  | answer {a : α} {b : β} (h : A a b) : Alike A (.answer a) (.answer b)
  | raise (e : ε) : Alike A (.raise e) (.raise e)
  | step {write : σ → σ} {write' : τ → τ} {next : σ → Prog σ ε α} {next' : τ → Prog τ ε β}
      (hwrite : ∀ s t, R s t → R (write s) (write' t))
      (hnext : ∀ s t, R s t → Alike A (next s) (next' t)) :
      Alike A (.step write next) (.step write' next')

/-- What a step may come to on either side. -/
inductive AlikeResult (A : α → β → Prop) : Except ε (σ × α) → Except ε (τ × β) → Prop where
  | ok {s : σ} {t : τ} {a : α} {b : β} (hstate : R s t) (h : A a b) :
      AlikeResult A (.ok (s, a)) (.ok (t, b))
  | error (e : ε) : AlikeResult A (.error e) (.error e)

end

variable {R : σ → τ → Prop} {A : α → β → Prop} {B : γ → δ → Prop} {p : Prog σ ε α} {q : Prog τ ε β}

theorem AlikeResult.mapError {ε' : Type} {x : Except ε (σ × α)} {y : Except ε (τ × β)} (f : ε → ε')
    (h : AlikeResult R A x y) : AlikeResult R A (x.mapError f) (y.mapError f) := by
  cases h with
  | ok hstate h => exact .ok hstate h
  | error e => exact .error _

/-- What else is known of the states a step leaves. -/
theorem AlikeResult.strengthen {R' : σ → τ → Prop} {x : Except ε (σ × α)} {y : Except ε (τ × β)}
    (h : AlikeResult R A x y)
    (hR : ∀ s a t b, x = .ok (s, a) → y = .ok (t, b) → R s t → R' s t) :
    AlikeResult R' A x y := by
  cases h with
  | ok hstate h => exact .ok (hR _ _ _ _ rfl rfl hstate) h
  | error e => exact .error _

theorem Alike.bind {f : α → Prog σ ε γ} {g : β → Prog τ ε δ} (h : Alike R A p q)
    (hnext : ∀ a b, A a b → Alike R B (f a) (g b)) : Alike R B (p >>= f) (q >>= g) := by
  induction h with
  | answer h => exact hnext _ _ h
  | raise e => exact .raise e
  | step hwrite _ ih => exact .step hwrite ih

theorem Alike.map {f : α → γ} {g : β → δ} (h : Alike R A p q)
    (hfg : ∀ a b, A a b → B (f a) (g b)) : Alike R B (f <$> p) (g <$> q) :=
  .bind h fun a b hab => .answer (hfg a b hab)

theorem Alike.call {f : σ → Except ε (σ × α)} {g : τ → Except ε (τ × β)}
    (h : ∀ s t, R s t → AlikeResult R A (f s) (g t)) :
    Alike R A (Prog.call f) (Prog.call g) := by
  refine .step (fun s t hst => ?_) fun s t hst => ?_
  · have hresult := h s t hst
    revert hresult
    generalize f s = x
    generalize g t = y
    rintro (⟨hstate, -⟩ | e)
    · exact hstate
    · exact hst
  · have hresult := h s t hst
    revert hresult
    generalize f s = x
    generalize g t = y
    rintro (⟨-, hab⟩ | e)
    · exact .answer hab
    · exact .raise e

theorem Alike.ask {f : σ → α} {g : τ → β} (h : ∀ s t, R s t → A (f s) (g t)) :
    Alike R A (Prog.ask f : Prog σ ε α) (Prog.ask g) :=
  .call fun s t hst => .ok hst (h s t hst)

theorem Alike.handle {ε' : Type} {f : ε → Prog σ ε' α} {g : ε → Prog τ ε' β} (h : Alike R A p q)
    (hraise : ∀ e, Alike R A (f e) (g e)) : Alike R A (p.handle f) (q.handle g) := by
  induction h with
  | answer h => exact .answer h
  | raise e => exact hraise e
  | step hwrite _ ih => exact .step hwrite ih

/-- A loop over related lists. -/
theorem Alike.mapM {f : α → Prog σ ε γ} {g : β → Prog τ ε δ} {xs : List α} {ys : List β}
    (h : List.Forall₂ A xs ys) (hbody : ∀ a b, A a b → Alike R B (f a) (g b)) :
    Alike R (List.Forall₂ B) (xs.mapM f) (ys.mapM g) := by
  induction h with
  | nil => exact .answer .nil
  | cons hab _ ih =>
      rw [List.mapM_cons, List.mapM_cons]
      exact .bind (hbody _ _ hab) fun c d hcd => .bind ih fun cs ds hcds =>
        .answer (.cons hcd hcds)

/-! ### Runs -/

section
variable {ρ ρ' : Type} {Q : ρ → ρ' → Prop} {prog : ρ → Prog σ ε α} {prog' : ρ' → Prog τ ε β}
  {s s' : State σ ε α} {t t' : State τ ε β}

/-- The same step, or programs that are alike. -/
inductive AlikeAct (Q : ρ → ρ' → Prop) : Act ρ → Act ρ' → Prop where
  | arrive {request : ρ} {request' : ρ'} (h : Q request request') :
      AlikeAct Q (.arrive request) (.arrive request')
  | step (k : Nat) : AlikeAct Q (.step k) (.step k)

/-- Related states, and programs alike. -/
structure AlikeState (R : σ → τ → Prop) (A : α → β → Prop) (s : State σ ε α) (t : State τ ε β) :
    Prop where
  shared : R s.shared t.shared
  progs : List.Forall₂ (Alike R A) s.progs t.progs

theorem forall₂_set {r : α → β → Prop} {xs : List α} {ys : List β} (h : List.Forall₂ r xs ys)
    (k : Nat) {x : α} {y : β} (hxy : r x y) : List.Forall₂ r (xs.set k x) (ys.set k y) := by
  induction h generalizing k with
  | nil => exact .nil
  | cons hab h ih =>
      cases k with
      | zero => exact .cons hxy h
      | succ k => exact .cons hab (ih k)

theorem forall₂_getElem? {r : α → β → Prop} {xs : List α} {ys : List β}
    (h : List.Forall₂ r xs ys) (k : Nat) :
    xs[k]? = none ∧ ys[k]? = none ∨ ∃ x y, xs[k]? = some x ∧ ys[k]? = some y ∧ r x y := by
  induction h generalizing k with
  | nil => exact .inl ⟨rfl, rfl⟩
  | cons hab h ih =>
      cases k with
      | zero => exact .inr ⟨_, _, rfl, rfl, hab⟩
      | succ k => exact ih k

theorem AlikeState.next (hprog : ∀ r r', Q r r' → Alike R A (prog r) (prog' r'))
    (h : AlikeState R A s t) {a : Act ρ} {a' : Act ρ'} (ha : AlikeAct Q a a') :
    AlikeState R A (s.next prog a) (t.next prog' a') := by
  cases ha with
  | arrive hr => exact ⟨h.shared, List.rel_append h.progs (.cons (hprog _ _ hr) .nil)⟩
  | step k =>
      simp only [State.next]
      rcases forall₂_getElem? h.progs k with ⟨hs, ht⟩ | ⟨p, q, hs, ht, hpq⟩
      · rw [hs, ht]
        exact h
      · rw [hs, ht]
        cases hpq with
        | answer _ => exact h
        | raise _ => exact h
        | step hwrite hnext =>
            exact ⟨hwrite _ _ h.shared, forall₂_set h.progs k (hnext _ _ h.shared)⟩

/-- **Programs that are alike**, scheduled alike, leave related states and programs alike. -/
theorem alike_run (hprog : ∀ r r', Q r r' → Alike R A (prog r) (prog' r')) {shared : σ}
    {shared' : τ} (hshared : R shared shared') {acts : List (Act ρ)} {acts' : List (Act ρ')}
    (hacts : List.Forall₂ (AlikeAct Q) acts acts') :
    AlikeState R A (State.run prog shared acts) (State.run prog' shared' acts') := by
  rw [State.run, State.run]
  have hinit : AlikeState R A (⟨shared, []⟩ : State σ ε α) ⟨shared', []⟩ := ⟨hshared, .nil⟩
  revert hinit
  generalize (⟨shared, []⟩ : State σ ε α) = s
  generalize (⟨shared', []⟩ : State τ ε β) = t
  intro h
  induction hacts generalizing s t with
  | nil => exact h
  | cons ha _ ih => exact ih _ _ (h.next hprog ha)

/-- Programs alike whose answers are to be the same have come to the same. -/
theorem AlikeState.results_eq {s : State σ ε α} {t : State τ ε α} (h : AlikeState R Eq s t) :
    s.results = t.results := by
  rw [State.results, State.results]
  have hprogs := h.progs
  generalize s.progs = xs at hprogs
  generalize t.progs = ys at hprogs
  induction hprogs with
  | nil => rfl
  | cons hpq _ ih =>
      rw [List.map_cons, List.map_cons, ih]
      congr 1
      cases hpq with
      | answer heq => exact congrArg (fun a => some (Except.ok a)) heq
      | raise e => rfl
      | step => rfl

end

end Resume
