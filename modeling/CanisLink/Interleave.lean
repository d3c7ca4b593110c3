import Mathlib.Logic.Function.Basic
import Mathlib.Data.List.Induction
/-!
# Interleave — programs over atomic calls, alone or against each other

A program is a tree of atomic calls on a shared state: each call is answered by the state, and the answer decides how
the program goes on.  `Prog.eval` runs one program to its end; `Pool.run` runs a list of them under a schedule, one
call at a time, and keeps the log of every call and its answer.

Two rules carry the proofs.  `Prog.All` bounds the calls a program can make, and `Prog.All.eval` turns what one call
preserves into what a whole run preserves.  `Prog.Along` states a condition on a call in terms of the program's own
earlier calls and answers, and `Pool.run_inv` turns it, with a step lemma for the shared state, into an invariant of
every interleaving.  The input of a step (a clock reading, a random draw) comes with the schedule.
-/
namespace Interleave

variable {C : Type} {R : C → Type} {α β σ τ : Type}

/-- A program: finished, or an atomic call with a continuation for each answer. -/
inductive Prog (R : C → Type) (α : Type) : Type
  | done (a : α)
  | call (c : C) (k : R c → Prog R α)

namespace Prog

def bind : Prog R α → (α → Prog R β) → Prog R β
  | done a, f => f a
  | call c k, f => call c (fun r => (k r).bind f)

/-- The program that makes one call and returns its answer. -/
def op (c : C) : Prog R (R c) := call c done

instance : Monad (Prog R) where
  pure := done
  bind := bind

@[simp] theorem pure_eq (a : α) : (pure a : Prog R α) = done a := rfl
@[simp] theorem done_bind (a : α) (f : α → Prog R β) : (done a >>= f) = f a := rfl
@[simp] theorem call_bind (c : C) (k : R c → Prog R α) (f : α → Prog R β) :
    (call c k >>= f) = call c (fun r => k r >>= f) := rfl
@[simp] theorem op_bind (c : C) (f : R c → Prog R β) : (op c >>= f) = call c f := rfl
@[simp] theorem op_eq (c : C) : (op c : Prog R (R c)) = call c done := rfl

/-! ## One program alone -/

/-- Run a program to its end, the `n`-th call under the input `κ n`. -/
def eval (exec : τ → (c : C) → σ → R c × σ) : Prog R α → (Nat → τ) → σ → α × σ
  | done a, _, s => (a, s)
  | call c k, κ, s =>
    (k (exec (κ 0) c s).1).eval exec (fun n => κ (n + 1)) (exec (κ 0) c s).2

variable (exec : τ → (c : C) → σ → R c × σ)

@[simp] theorem eval_done (a : α) (κ : Nat → τ) (s : σ) : (done a : Prog R α).eval exec κ s = (a, s) := rfl
@[simp] theorem eval_call (c : C) (k : R c → Prog R α) (κ : Nat → τ) (s : σ) :
    (call c k).eval exec κ s = (k (exec (κ 0) c s).1).eval exec (fun n => κ (n + 1)) (exec (κ 0) c s).2 := rfl

/-- How many calls a program makes on a run. -/
def steps : Prog R α → (Nat → τ) → σ → Nat
  | done _, _, _ => 0
  | call c k, κ, s => (k (exec (κ 0) c s).1).steps (fun n => κ (n + 1)) (exec (κ 0) c s).2 + 1

theorem eval_bind (p : Prog R α) (f : α → Prog R β) (κ : Nat → τ) (s : σ) :
    (p >>= f).eval exec κ s =
      (f (p.eval exec κ s).1).eval exec (fun n => κ (n + p.steps exec κ s)) (p.eval exec κ s).2 := by
  induction p generalizing κ s with
  | done a => rfl
  | call c k ih =>
    rw [call_bind, eval_call, ih, eval_call]
    simp only [steps, Nat.add_right_comm, Nat.add_assoc, Nat.add_comm 1]

/-- Every call the program can make satisfies `S`. -/
def All (S : C → Prop) : Prog R α → Prop
  | done _ => True
  | call c k => S c ∧ ∀ r, (k r).All S

@[simp] theorem all_done (S : C → Prop) (a : α) : (done a : Prog R α).All S := trivial
@[simp] theorem all_call (S : C → Prop) (c : C) (k : R c → Prog R α) :
    (call c k).All S ↔ S c ∧ ∀ r, (k r).All S := Iff.rfl

theorem All.bind {S : C → Prop} {p : Prog R α} {f : α → Prog R β} (hp : p.All S) (hf : ∀ a, (f a).All S) :
    (p >>= f).All S := by
  induction p with
  | done a => exact hf a
  | call c k ih => exact ⟨hp.1, fun r => ih r (hp.2 r)⟩

theorem All.mono {S S' : C → Prop} (h : ∀ c, S c → S' c) {p : Prog R α} (hp : p.All S) : p.All S' := by
  induction p with
  | done a => trivial
  | call c k ih => exact ⟨h c hp.1, fun r => ih r (hp.2 r)⟩

/-- Every result the program can return satisfies `Q`, whatever its calls are answered. -/
def Returns (Q : α → Prop) : Prog R α → Prop
  | done a => Q a
  | call _ k => ∀ r, (k r).Returns Q

theorem Returns.bind {P : α → Prop} {Q : β → Prop} {p : Prog R α} {f : α → Prog R β} (hp : p.Returns P)
    (hf : ∀ a, P a → (f a).Returns Q) : (p >>= f).Returns Q := by
  induction p with
  | done a => exact hf a hp
  | call c k ih => exact fun r => ih r (hp r)

theorem Returns.mono {P Q : α → Prop} {p : Prog R α} (hp : p.Returns P) (h : ∀ a, P a → Q a) : p.Returns Q := by
  induction p with
  | done a => exact h a hp
  | call c k ih => exact fun r => ih r (hp r)

theorem Returns.eval {Q : α → Prop} : ∀ {p : Prog R α}, p.Returns Q → ∀ (κ : Nat → τ) (s : σ), Q (p.eval exec κ s).1
  | .done _, h, _, _ => h
  | .call c _, h, κ, s => Returns.eval (h (exec (κ 0) c s).1) _ _

/-- **What every call of a program preserves, its run preserves.** -/
theorem All.eval {S : C → Prop} {I : σ → Prop} (hI : ∀ c, S c → ∀ t s, I s → I (exec t c s).2) :
    ∀ {p : Prog R α}, p.All S → ∀ (κ : Nat → τ) (s : σ), I s → I (p.eval exec κ s).2
  | .done _, _, _, _, h => h
  | .call c k, hp, κ, s, h => by
    rw [eval_call]
    exact All.eval hI (hp.2 _) _ _ (hI c hp.1 (κ 0) s h)

/-- A postcondition of a run: of the result and the state it ends in. -/
def Yields (p : Prog R α) (κ : Nat → τ) (s : σ) (Q : α → σ → Prop) : Prop := Q (p.eval exec κ s).1 (p.eval exec κ s).2

/-- The calls a run makes, with their answers. -/
def trace : Prog R α → (Nat → τ) → σ → List ((c : C) × R c)
  | done _, _, _ => []
  | call c k, κ, s => ⟨c, (exec (κ 0) c s).1⟩ :: (k (exec (κ 0) c s).1).trace (fun n => κ (n + 1)) (exec (κ 0) c s).2

/-- A postcondition on the calls of a run. -/
def Traced (p : Prog R α) (κ : Nat → τ) (s : σ) (Q : List ((c : C) × R c) → Prop) : Prop := Q (p.trace exec κ s)

variable {exec}

theorem Yields.done {a : α} {κ : Nat → τ} {s : σ} {Q : α → σ → Prop} (h : Q a s) :
    (Prog.done a : Prog R α).Yields exec κ s Q := h

theorem Yields.call {c : C} {k : R c → Prog R α} {κ : Nat → τ} {s : σ} {Q : α → σ → Prop}
    (h : ∀ r s', exec (κ 0) c s = (r, s') → (k r).Yields exec (fun n => κ (n + 1)) s' Q) :
    (Prog.call c k).Yields exec κ s Q := h _ _ rfl

theorem Yields.bind {p : Prog R α} {f : α → Prog R β} {κ : Nat → τ} {s : σ} {Q : β → σ → Prop}
    (h : p.Yields exec κ s (fun a s' => ∀ κ', (f a).Yields exec κ' s' Q)) : (p >>= f).Yields exec κ s Q := by
  unfold Yields
  rw [eval_bind]
  exact h _

/-- The second program runs under the inputs that the first leaves. -/
theorem Yields.bindLater {p : Prog R α} {f : α → Prog R β} {κ : Nat → τ} {s : σ} {Q : β → σ → Prop}
    (h : p.Yields exec κ s (fun a s' => ∀ n, (f a).Yields exec (fun i => κ (i + n)) s' Q)) :
    (p >>= f).Yields exec κ s Q := by
  unfold Yields
  rw [eval_bind]
  exact h _

theorem Yields.mono {p : Prog R α} {κ : Nat → τ} {s : σ} {Q Q' : α → σ → Prop} (h : p.Yields exec κ s Q)
    (hQ : ∀ a s', Q a s' → Q' a s') : p.Yields exec κ s Q' := hQ _ _ h

/-- What one run yields may be used for the rest of its postcondition. -/
theorem Yields.given {p : Prog R α} {κ : Nat → τ} {s : σ} {Q Q' : α → σ → Prop} (h : p.Yields exec κ s Q)
    (h' : p.Yields exec κ s (fun a s' => Q a s' → Q' a s')) : p.Yields exec κ s Q' := h' h

theorem trace_bind (p : Prog R α) (f : α → Prog R β) (κ : Nat → τ) (s : σ) : (p >>= f).trace exec κ s =
    p.trace exec κ s ++
      (f (p.eval exec κ s).1).trace exec (fun n => κ (n + p.steps exec κ s)) (p.eval exec κ s).2 := by
  induction p generalizing κ s with
  | done a => rfl
  | call c k ih =>
    rw [call_bind, trace, ih, trace, List.cons_append, eval_call]
    simp only [steps, Nat.add_right_comm, Nat.add_assoc, Nat.add_comm 1]

theorem Traced.done {a : α} {κ : Nat → τ} {s : σ} {Q : List ((c : C) × R c) → Prop} (h : Q []) :
    (Prog.done a : Prog R α).Traced exec κ s Q := h

theorem Traced.call {c : C} {k : R c → Prog R α} {κ : Nat → τ} {s : σ} {Q : List ((c : C) × R c) → Prop}
    (h : ∀ r s', exec (κ 0) c s = (r, s') →
      (k r).Traced exec (fun n => κ (n + 1)) s' (fun tr => Q (⟨c, r⟩ :: tr))) :
    (Prog.call c k).Traced exec κ s Q := h _ _ rfl

theorem Traced.mono {p : Prog R α} {κ : Nat → τ} {s : σ} {Q Q' : List ((c : C) × R c) → Prop}
    (h : p.Traced exec κ s Q) (hQ : ∀ tr, Q tr → Q' tr) : p.Traced exec κ s Q' := hQ _ h

/-- What one run makes may be used for the rest of its postcondition. -/
theorem Traced.given {p : Prog R α} {κ : Nat → τ} {s : σ} {Q Q' : List ((c : C) × R c) → Prop}
    (h : p.Traced exec κ s Q) (h' : p.Traced exec κ s (fun tr => Q tr → Q' tr)) : p.Traced exec κ s Q' := h' h

theorem Traced.of_forall {p : Prog R α} {κ : Nat → τ} {s : σ} {Q : List ((c : C) × R c) → Prop} (h : ∀ tr, Q tr) :
    p.Traced exec κ s Q := h _

theorem Traced.and {p : Prog R α} {κ : Nat → τ} {s : σ} {Q Q' : List ((c : C) × R c) → Prop}
    (h : p.Traced exec κ s Q) (h' : p.Traced exec κ s Q') : p.Traced exec κ s (fun tr => Q tr ∧ Q' tr) := ⟨h, h'⟩

/-- What a run makes and yields, and what is made after it. -/
theorem Traced.bind {p : Prog R α} {f : α → Prog R β} {κ : Nat → τ} {s : σ} {P Q : List ((c : C) × R c) → Prop}
    {E : α → σ → Prop} (ht : p.Traced exec κ s P) (hy : p.Yields exec κ s E)
    (hf : ∀ tr a s' κ', P tr → E a s' → (f a).Traced exec κ' s' (fun tr' => Q (tr ++ tr'))) :
    (p >>= f).Traced exec κ s Q := by
  unfold Traced
  rw [trace_bind]
  exact hf _ _ _ _ ht hy

theorem All.traced {S : C → Prop} : ∀ {p : Prog R α}, p.All S → ∀ (κ : Nat → τ) (s : σ),
    p.Traced exec κ s (fun tr => ∀ e ∈ tr, S e.1)
  | .done _, _, _, _ => List.forall_mem_nil _
  | .call c _, hp, κ, s => List.forall_mem_cons.2 ⟨hp.1, All.traced (hp.2 (exec (κ 0) c s).1) _ _⟩

theorem yields_of_step {I : σ → Prop} (hI : ∀ t (c : C) s, I s → I (exec t c s).2) :
    ∀ (p : Prog R α) {κ : Nat → τ} {s : σ},
    I s → p.Yields exec κ s (fun _ s' => I s')
  | done _, _, _, h => h
  | call c k, κ, s, h => yields_of_step hI (k (exec (κ 0) c s).1) (hI (κ 0) c s h)

theorem All.yields {S : C → Prop} {I : σ → Prop} (hI : ∀ c, S c → ∀ t s, I s → I (exec t c s).2) {p : Prog R α}
    (hp : p.All S)
    {κ : Nat → τ} {s : σ} (h : I s) : p.Yields exec κ s (fun _ s' => I s') := hp.eval exec hI κ s h

end Prog

/-! ## A pool of programs -/

/-- One call of a run: the program that made it, its input, the call and the answer. -/
structure Step (R : C → Type) (τ : Type) where
  tid : Nat
  input : τ
  cmd : C
  resp : R cmd

/-- The shared state, what is left of each program, and the log so far. -/
structure Pool (R : C → Type) (α σ τ : Type) where
  state : σ
  threads : List (Prog R α)
  log : List (Step R τ)

/-- The calls program `i` made, in order. -/
def own (i : Nat) (log : List (Step R τ)) : List (Step R τ) := log.filter (fun e => decide (e.tid = i))

theorem own_snoc_self (i : Nat) (l : List (Step R τ)) (t : τ) (c : C) (r : R c) :
    own i (l ++ [⟨i, t, c, r⟩]) = own i l ++ [⟨i, t, c, r⟩] := by simp [own]
theorem own_snoc_ne {i j : Nat} (h : j ≠ i) (l : List (Step R τ)) (t : τ) (c : C) (r : R c) :
    own i (l ++ [⟨j, t, c, r⟩]) = own i l := by simp [own, h]
theorem mem_own {i : Nat} {l : List (Step R τ)} {e : Step R τ} : e ∈ own i l ↔ e ∈ l ∧ e.tid = i := by
  simp [own]

/-- What each program does at most as often as something else, all of them together do at most as often. -/
theorem countP_le_of_own {P Q : Step R τ → Bool} : ∀ {log : List (Step R τ)},
    (∀ i, (own i log).countP P ≤ (own i log).countP Q) → log.countP P ≤ log.countP Q := by
  intro log
  induction hn : log.length using Nat.strongRecOn generalizing log with
  | ind n ih =>
    intro h
    cases log with
    | nil => exact Nat.le_refl _
    | cons e es =>
      -- the program of the first step, and the log without it
      have hlt : ((e :: es).filter (fun x => !decide (x.tid = e.tid))).length < n := by
        rw [← hn, List.filter_cons_of_neg (by simp)]
        exact Nat.lt_succ_of_le (List.length_filter_le _ _)
      have hrest := ih _ hlt rfl (fun i => ?_)
      · rw [List.countP_eq_countP_filter_add (e :: es) P (fun x => decide (x.tid = e.tid)),
          List.countP_eq_countP_filter_add (e :: es) Q (fun x => decide (x.tid = e.tid))]
        exact Nat.add_le_add (h e.tid) hrest
      · by_cases hi : i = e.tid
        · have hnil : own i ((e :: es).filter (fun x => !decide (x.tid = e.tid))) = [] := by
            refine List.filter_eq_nil_iff.2 (fun x hx => ?_)
            have := (List.mem_filter.1 hx).2
            simpa [hi] using this
          rw [hnil]
          exact Nat.le_refl _
        · have hsame : own i ((e :: es).filter (fun x => !decide (x.tid = e.tid))) = own i (e :: es) := by
            unfold own
            rw [List.filter_filter]
            refine List.filter_congr (fun x _ => ?_)
            by_cases hx : x.tid = i
            · simp [hx, hi]
            · simp [hx]
          rw [hsame]
          exact h i

/-- Two exclusive kinds of steps are together at most as many as a kind that has both. -/
theorem countP_add_le {P Q S : Step R τ → Bool} (hx : ∀ e, P e = true → Q e = false) (hp : ∀ e, P e = true → S e = true)
    (hq : ∀ e, Q e = true → S e = true) : ∀ log : List (Step R τ), log.countP P + log.countP Q ≤ log.countP S
  | [] => Nat.le_refl _
  | e :: log => by
    have ih := countP_add_le hx hp hq log
    have hxe := hx e
    have hpe := hp e
    have hqe := hq e
    rw [List.countP_cons, List.countP_cons, List.countP_cons]
    cases hP : P e with
    | true => rw [hxe hP, hpe hP]; simp only [if_true, Bool.false_eq_true, if_false]; omega
    | false =>
      cases hQ : Q e with
      | true => rw [hqe hQ]; simp only [if_true, Bool.false_eq_true, if_false]; omega
      | false => simp only [Bool.false_eq_true, if_false]; omega

theorem countP_or_le (P Q : Step R τ → Bool) : ∀ log : List (Step R τ),
    log.countP (fun e => P e || Q e) ≤ log.countP P + log.countP Q
  | [] => Nat.le_refl _
  | e :: log => by
    have ih := countP_or_le P Q log
    rw [List.countP_cons, List.countP_cons, List.countP_cons]
    cases P e <;> cases Q e <;> simp only [Bool.or_true, Bool.or_false, Bool.false_eq_true, if_true, if_false] <;> omega

/-- `b` is what came after some step that meets `P`. -/
def After (P : Step R τ → Prop) (log b : List (Step R τ)) : Prop := ∃ a e, log = a ++ e :: b ∧ P e

theorem after_snoc {P : Step R τ → Prop} {log b : List (Step R τ)} {e : Step R τ} :
    After P (log ++ [e]) b ↔ (b = [] ∧ P e) ∨ ∃ b', b = b' ++ [e] ∧ After P log b' := by
  constructor
  · rintro ⟨a, x, h, hx⟩
    rcases List.eq_nil_or_concat b with rfl | ⟨b', y, rfl⟩
    · have := List.append_inj' h rfl
      simp only [List.cons.injEq, and_true] at this
      exact .inl ⟨rfl, this.2 ▸ hx⟩
    · rw [List.concat_eq_append, ← List.cons_append, ← List.append_assoc] at h
      have := List.append_inj' h rfl
      simp only [List.cons.injEq, and_true] at this
      exact .inr ⟨b', by rw [List.concat_eq_append, this.2], a, x, this.1, hx⟩
  · rintro (⟨rfl, hx⟩ | ⟨b', rfl, a, x, rfl, hx⟩)
    · exact ⟨log, e, rfl, hx⟩
    · exact ⟨a, x, by simp, hx⟩

/-- The steps after the last one that meets `P`. -/
def since (P : Step R τ → Bool) (log : List (Step R τ)) : List (Step R τ) :=
  (log.reverse.takeWhile (fun e => !P e)).reverse

theorem since_snoc (P : Step R τ → Bool) (log : List (Step R τ)) (e : Step R τ) :
    since P (log ++ [e]) = if P e then [] else since P log ++ [e] := by
  unfold since
  rw [List.reverse_append, List.reverse_singleton, List.singleton_append, List.takeWhile_cons]
  cases P e with
  | true => rfl
  | false => simp

theorem after_since {P : Step R τ → Bool} {log : List (Step R τ)} (h : log.any P = true) :
    After (fun e => P e = true) log (since P log) := by
  induction log using List.reverseRecOn with
  | nil => cases h
  | append_singleton log e ih =>
    rw [after_snoc, since_snoc]
    cases he : P e with
    | true => exact .inl ⟨rfl, rfl⟩
    | false =>
      have hlog : log.any P = true := by
        rw [List.any_append, List.any_cons, he, List.any_nil, Bool.or_false, Bool.or_false] at h
        exact h
      exact .inr ⟨since P log, rfl, ih hlog⟩

theorem After.mono {P Q : Step R τ → Prop} {log b : List (Step R τ)} (h : After P log b) (hPQ : ∀ e ∈ log, P e → Q e) :
    After Q log b := by
  obtain ⟨a, e, rfl, he⟩ := h
  exact ⟨a, e, rfl, hPQ e (by simp) he⟩

namespace Prog

/-- Along every path of the program, with `h` the calls already made: `Q` holds of the past and the next call, and `E`
of the past and the result. -/
def Along (i : Nat) (Q : List (Step R τ) → C → Prop) (E : List (Step R τ) → α → Prop) :
    Prog R α → List (Step R τ) → Prop
  | done a, h => E h a
  | call c k, h => Q h c ∧ ∀ (t : τ) (r : R c), (k r).Along i Q E (h ++ [⟨i, t, c, r⟩])

variable {i : Nat} {Q : List (Step R τ) → C → Prop} {E : List (Step R τ) → α → Prop}

@[simp] theorem along_done (a : α) (h : List (Step R τ)) : (done a : Prog R α).Along i Q E h ↔ E h a := Iff.rfl
@[simp] theorem along_call (c : C) (k : R c → Prog R α) (h : List (Step R τ)) :
    (call c k).Along i Q E h ↔ Q h c ∧ ∀ (t : τ) (r : R c), (k r).Along i Q E (h ++ [⟨i, t, c, r⟩]) := Iff.rfl

theorem Along.bind {E' : List (Step R τ) → β → Prop} {f : α → Prog R β} (hf : ∀ h a, E h a → (f a).Along i Q E' h) :
    ∀ {p : Prog R α} {h : List (Step R τ)}, p.Along i Q E h → (p >>= f).Along i Q E' h
  | done _, _, hp => hf _ _ hp
  | call _ _, _, hp => ⟨hp.1, fun t r => Along.bind hf (hp.2 t r)⟩

theorem Along.mono {Q' : List (Step R τ) → C → Prop} {E' : List (Step R τ) → α → Prop} (hQ : ∀ h c, Q h c → Q' h c)
    (hE : ∀ h a, E h a → E' h a) : ∀ {p : Prog R α} {h : List (Step R τ)}, p.Along i Q E h → p.Along i Q' E' h
  | done _, _, hp => hE _ _ hp
  | call _ _, _, hp => ⟨hQ _ _ hp.1, fun t r => Along.mono hQ hE (hp.2 t r)⟩

/-- A program of calls in `S` keeps a fact `N` about its past that each such call keeps. -/
theorem All.along {S : C → Prop} {N : List (Step R τ) → Prop}
    (hcall : ∀ h c, N h → S c → Q h c ∧ ∀ (t : τ) (r : R c), N (h ++ [⟨i, t, c, r⟩])) (hend : ∀ h a, N h → E h a) :
    ∀ {p : Prog R α} {h : List (Step R τ)}, p.All S → N h → p.Along i Q E h
  | done _, _, _, hn => hend _ _ hn
  | call _ _, _, hp, hn =>
    ⟨(hcall _ _ hn hp.1).1, fun t r => All.along hcall hend (hp.2 r) ((hcall _ _ hn hp.1).2 t r)⟩

/-- A condition on calls alone holds along every path. -/
theorem All.along_calls {S : C → Prop} {p : Prog R α} {h : List (Step R τ)} (hp : p.All S) (hQ : ∀ h c, S c → Q h c)
    (hE : ∀ h a, E h a) : p.Along i Q E h :=
  All.along (N := fun _ => True) (fun h c _ hc => ⟨hQ h c hc, fun _ _ => trivial⟩) (fun h a _ => hE h a) hp trivial

theorem All.and_along {S : C → Prop} : ∀ {p : Prog R α} {h : List (Step R τ)}, p.All S → p.Along i Q E h →
    p.Along i (fun h c => S c ∧ Q h c) E h
  | done _, _, _, hp => hp
  | call _ _, _, hs, hp => ⟨⟨hs.1, hp.1⟩, fun t r => (hs.2 r).and_along (hp.2 t r)⟩

end Prog

namespace Pool

variable (exec : τ → (c : C) → σ → R c × σ)

/-- The programs before any of them has made a call. -/
def start (s : σ) (ps : List (Prog R α)) : Pool R α σ τ := ⟨s, ps, []⟩

/-- Program `l.1` makes its next call under the input `l.2`; a finished program does nothing. -/
def step (p : Pool R α σ τ) (l : Nat × τ) : Pool R α σ τ :=
  match p.threads[l.1]? with
  | some (.call c k) =>
    { state := (exec l.2 c p.state).2
      threads := p.threads.set l.1 (k (exec l.2 c p.state).1)
      log := p.log ++ [⟨l.1, l.2, c, (exec l.2 c p.state).1⟩] }
  | _ => p

def run (p : Pool R α σ τ) (sched : List (Nat × τ)) : Pool R α σ τ := sched.foldl (step exec) p

@[simp] theorem run_nil (p : Pool R α σ τ) : run exec p [] = p := rfl
@[simp] theorem run_cons (p : Pool R α σ τ) (l : Nat × τ) (sched : List (Nat × τ)) :
    run exec p (l :: sched) = run exec (step exec p l) sched := rfl
theorem run_append (p : Pool R α σ τ) (a b : List (Nat × τ)) : run exec p (a ++ b) = run exec (run exec p a) b :=
  List.foldl_append ..

/-- Every program has returned. -/
def Finished (p : Pool R α σ τ) : Prop := ∀ q ∈ p.threads, ∃ a, q = .done a

/-- Whether a program has returned. -/
def returned : Prog R α → Bool
  | .done _ => true
  | .call .. => false

instance (p : Pool R α σ τ) : Decidable p.Finished :=
  decidable_of_iff (p.threads.all returned = true) (by
    rw [List.all_eq_true]
    refine ⟨fun h q hq => ?_, fun h q hq => ?_⟩
    · have := h q hq
      cases q with
      | done a => exact ⟨a, rfl⟩
      | call c k => cases this
    · obtain ⟨a, rfl⟩ := h q hq
      rfl)

/-- The call program `i` makes next. -/
def next (p : Pool R α σ τ) (i : Nat) : Option C :=
  match p.threads[i]? with
  | some (.call c _) => some c
  | _ => none

theorem next_eq {p : Pool R α σ τ} {i : Nat} {c : C} {k : R c → Prog R α} (h : p.threads[i]? = some (.call c k)) :
    p.next i = some c := by
  unfold next
  rw [h]

/-- Every step of the schedule meets `Cond`, a condition on the pool before the step. -/
def Meets (Cond : Pool R α σ τ → Nat × τ → Prop) : Pool R α σ τ → List (Nat × τ) → Prop
  | _, [] => True
  | p, l :: sched => Cond p l ∧ Meets Cond (step exec p l) sched

instance decidableMeets {Cond : Pool R α σ τ → Nat × τ → Prop} [∀ p l, Decidable (Cond p l)] :
    ∀ (p : Pool R α σ τ) (sched : List (Nat × τ)), Decidable (Meets exec Cond p sched)
  | _, [] => isTrue trivial
  | p, l :: sched => @instDecidableAnd _ _ _ (decidableMeets (step exec p l) sched)

theorem Meets.append {Cond : Pool R α σ τ → Nat × τ → Prop} :
    ∀ {a b : List (Nat × τ)} {p : Pool R α σ τ}, Meets exec Cond p (a ++ b) →
      Meets exec Cond p a ∧ Meets exec Cond (run exec p a) b
  | [], _, _, h => ⟨trivial, h⟩
  | _ :: _, _, _, h => ⟨⟨h.1, (Meets.append h.2).1⟩, (Meets.append h.2).2⟩

theorem step_cases (p : Pool R α σ τ) (l : Nat × τ) :
    step exec p l = p ∨ ∃ c k, p.threads[l.1]? = some (.call c k) ∧ step exec p l =
      ⟨(exec l.2 c p.state).2, p.threads.set l.1 (k (exec l.2 c p.state).1),
        p.log ++ [⟨l.1, l.2, c, (exec l.2 c p.state).1⟩]⟩ := by
  unfold step
  split
  · rename_i c k h
    exact .inr ⟨c, k, h, rfl⟩
  · exact .inl rfl

theorem tid_lt : ∀ (sched : List (Nat × τ)) (p : Pool R α σ τ), (∀ e ∈ p.log, e.tid < p.threads.length) →
    ∀ e ∈ (p.run exec sched).log, e.tid < p.threads.length
  | [], _, h => h
  | l :: sched, p, h => by
    rw [run_cons]
    rcases step_cases exec p l with hs | ⟨c, k, hl, hs⟩
    · rw [hs]; exact tid_lt sched p h
    · have hlt := (List.getElem?_eq_some_iff.1 hl).1
      have ih := tid_lt sched (p.step exec l) (by
        rw [hs, List.length_set]
        intro e he
        rcases List.mem_append.1 he with he | he
        · exact h e he
        · rw [List.mem_singleton.1 he]; exact hlt)
      rw [hs, List.length_set] at ih
      rw [hs]
      exact ih

/-- Each program is where its specification allows after the calls it made. -/
def Follows (Q : Nat → List (Step R τ) → C → Prop) (E : Nat → List (Step R τ) → α → Prop) (p : Pool R α σ τ) : Prop :=
  ∀ (i : Nat) (q : Prog R α), p.threads[i]? = some q → q.Along i (Q i) (E i) (own i p.log)

variable {exec}

/-- Programs made from a list, each along its own specification. -/
theorem follows_start {A : Type} {Q : Nat → List (Step R τ) → C → Prop} {E : Nat → List (Step R τ) → α → Prop} {s : σ}
    {f : A → Prog R α} {as : List A} (h : ∀ i a, as[i]? = some a → (f a).Along i (Q i) (E i) []) :
    (start s (as.map f)).Follows Q E := by
  intro i q hq
  have hq : (as.map f)[i]? = some q := hq
  rw [List.getElem?_map, Option.map_eq_some_iff] at hq
  obtain ⟨a, ha, rfl⟩ := hq
  exact h i a ha

theorem Follows.step {Q : Nat → List (Step R τ) → C → Prop} {E : Nat → List (Step R τ) → α → Prop} {p : Pool R α σ τ}
    (h : p.Follows Q E) (l : Nat × τ) : (p.step exec l).Follows Q E := by
  rcases step_cases exec p l with hs | ⟨c, k, hl, hs⟩
  · rw [hs]; exact h
  · rw [hs]
    intro i q hi
    simp only [List.getElem?_set] at hi
    by_cases hil : l.1 = i
    · subst hil
      have hlt : l.1 < p.threads.length := (List.getElem?_eq_some_iff.1 hl).1
      simp only [if_true, hlt, Option.some.injEq] at hi
      subst hi
      rw [own_snoc_self]
      exact (h _ _ hl).2 _ _
    · rw [if_neg hil] at hi
      rw [own_snoc_ne hil]
      exact h i q hi

/-- **The invariant rule.**  Programs that follow their specifications keep an invariant of the pool that every step
allowed by the specification and by the schedule's condition keeps. -/
theorem run_inv {Q : Nat → List (Step R τ) → C → Prop} {E : Nat → List (Step R τ) → α → Prop}
    {Cond : Pool R α σ τ → Nat × τ → Prop} {J : Pool R α σ τ → Prop}
    (hstep : ∀ p i t c k, J p → p.Follows Q E → p.threads[i]? = some (.call c k) → Q i (own i p.log) c →
      Cond p (i, t) →
      J ⟨(exec t c p.state).2, p.threads.set i (k (exec t c p.state).1), p.log ++ [⟨i, t, c, (exec t c p.state).1⟩]⟩) :
    ∀ (sched : List (Nat × τ)) (p : Pool R α σ τ), p.Follows Q E → J p → p.Meets exec Cond sched →
      (p.run exec sched).Follows Q E ∧ J (p.run exec sched)
  | [], _, hf, hJ, _ => ⟨hf, hJ⟩
  | l :: sched, p, hf, hJ, hm => by
    rw [run_cons]
    refine run_inv hstep sched _ (hf.step l) ?_ hm.2
    rcases step_cases exec p l with hs | ⟨c, k, hl, hs⟩
    · rw [hs]; exact hJ
    · rw [hs]
      exact hstep p l.1 l.2 c k hJ hf hl (hf _ _ hl).1 hm.1

/-- **A program scheduled until it returns computes what it computes alone**: handling requests one at a time is the
interleaving that never leaves a program before its end. -/
theorem run_alone (i : Nat) : ∀ (q : Prog R α) (κ : Nat → τ) (p : Pool R α σ τ), p.threads[i]? = some q →
    (p.run exec ((List.range (q.steps exec κ p.state)).map (fun n => (i, κ n)))).state = (q.eval exec κ p.state).2 ∧
    (p.run exec ((List.range (q.steps exec κ p.state)).map (fun n => (i, κ n)))).threads =
      p.threads.set i (.done (q.eval exec κ p.state).1)
  | .done a, κ, p, hq => by
    obtain ⟨hlt, hq⟩ := List.getElem?_eq_some_iff.1 hq
    refine ⟨rfl, ?_⟩
    show p.threads = p.threads.set i (.done a)
    rw [← hq, List.set_getElem_self]
  | .call c k, κ, p, hq => by
    have hlt := (List.getElem?_eq_some_iff.1 hq).1
    have hs : p.step exec (i, κ 0) = ⟨(exec (κ 0) c p.state).2, p.threads.set i (k (exec (κ 0) c p.state).1),
        p.log ++ [⟨i, κ 0, c, (exec (κ 0) c p.state).1⟩]⟩ := by
      unfold Pool.step; simp only [hq]
    have ih := run_alone i (k (exec (κ 0) c p.state).1) (fun n => κ (n + 1)) (p.step exec (i, κ 0))
      (by rw [hs]; simp [hlt])
    simp only [Prog.steps, List.range_succ_eq_map, List.map_cons, List.map_map, run_cons, Prog.eval_call]
    rw [hs] at ih ⊢
    refine ⟨ih.1, ?_⟩
    have h2 := ih.2
    simp only [List.set_set] at h2
    exact h2

end Pool
end Interleave
