import CanisLink.Moments
/-!
# Trim — programs without some of their calls

One program is another without some of its calls, whose answers make no difference to it.  When the calls that are left
out change nothing that the others can tell, many programs and their trimmed counterparts keep pace: whatever the ones
can do together the others can, by taking the same steps but for the extra calls.
-/
namespace Interleave

variable {C : Type} {R : C → Type} {α β σ σ' τ : Type}

namespace Prog

/-- The second program is the first without some calls of `S`, whatever those are answered; the calls that are left
are of `V`. -/
inductive Trims (S V : C → Prop) : Prog R α → Prog R α → Prop
  | done (a : α) : Trims S V (done a) (done a)
  | both {c : C} {k k' : R c → Prog R α} (hc : V c) (h : ∀ r, Trims S V (k r) (k' r)) :
      Trims S V (call c k) (call c k')
  | skip {c : C} {k : R c → Prog R α} {q : Prog R α} (hc : S c) (h : ∀ r, Trims S V (k r) q) :
      Trims S V (call c k) q

variable {S V : C → Prop}

theorem Trims.refl : ∀ {p : Prog R α}, p.All V → p.Trims S V p
  | .done a, _ => .done a
  | .call _ _, h => .both h.1 (fun r => Trims.refl (h.2 r))

theorem Trims.bind {p q : Prog R α} {f g : α → Prog R β} (h : p.Trims S V q) (hf : ∀ a, (f a).Trims S V (g a)) :
    (p >>= f).Trims S V (q >>= g) := by
  induction h with
  | done a => exact hf a
  | both hc _ ih => exact .both hc ih
  | skip hc _ ih => exact .skip hc ih

/-- A program whose result is dropped, left out. -/
theorem Trims.drop {p : Prog R α} {f : α → Prog R β} {q : Prog R β} (h : p.All S) (hf : ∀ a, (f a).Trims S V q) :
    (p >>= f).Trims S V q := by
  induction p with
  | done a => exact hf a
  | call c k ih => exact .skip h.1 (fun r => ih r (h.2 r))

end Prog

/-- A call of `V` cannot tell states apart that `E` relates, and a call of `S` leaves a state that `E` relates to the
one before. -/
structure Deaf (exec : τ → (c : C) → σ → R c × σ) (exec' : τ → (c : C) → σ' → R c × σ') (S V : C → Prop)
    (E : σ → σ' → Prop) : Prop where
  congr : ∀ (t : τ) (c : C) {s : σ} {s' : σ'}, V c → E s s' →
    (exec t c s).1 = (exec' t c s').1 ∧ E (exec t c s).2 (exec' t c s').2
  hidden : ∀ (t : τ) (c : C) {s : σ} {s' : σ'}, S c → E s s' → E (exec t c s).2 s'

namespace Pool

open Prog (Trims)

/-- The programs of the second pool are those of the first, trimmed, and the states are related. -/
structure Trimmed (S V : C → Prop) (E : σ → σ' → Prop) (p : Pool R α σ τ) (p' : Pool R α σ' τ) : Prop where
  state : E p.state p'.state
  threads : ∀ i : Nat, Option.Rel (Trims S V) p.threads[i]? p'.threads[i]?

variable {exec : τ → (c : C) → σ → R c × σ} {exec' : τ → (c : C) → σ' → R c × σ'} {S V : C → Prop}
  {E : σ → σ' → Prop} {p : Pool R α σ τ} {p' : Pool R α σ' τ}

theorem Trimmed.start {s : σ} {s' : σ'} {ps ps' : List (Prog R α)} (hE : E s s')
    (hps : ∀ i : Nat, Option.Rel (Trims S V) ps[i]? ps'[i]?) :
    (start s ps : Pool R α σ τ).Trimmed S V E (start s' ps') := ⟨hE, hps⟩

theorem step_idle {l : Nat × τ} (h : ∀ c k, p.threads[l.1]? ≠ some (.call c k)) : p.step exec l = p :=
  (step_cases exec p l).resolve_right (fun ⟨c, k, hl, _⟩ => h c k hl)

/-- A program that has returned has returned for good. -/
theorem result_run {i : Nat} {a : α} : ∀ (sched : List (Nat × τ)) {p : Pool R α σ τ}, p.result i = some a →
    (p.run exec sched).result i = some a
  | [], _, h => h
  | l :: sched, p, h => by
    refine result_run sched ?_
    rw [result_eq_some] at h ⊢
    rcases step_cases exec p l with hs | ⟨c, k, hl, hs⟩
    · rw [hs]
      exact h
    · have hne : l.1 ≠ i := by
        rintro rfl
        rw [h] at hl
        cases hl
      rw [hs]
      exact (List.getElem?_set_ne hne).trans h

/-- What a program returns, its trimmed counterpart does. -/
theorem Trimmed.result (h : p.Trimmed S V E p') {i : Nat} {a : α} (ha : p.result i = some a) :
    p'.result i = some a := by
  rw [result_eq_some] at ha ⊢
  have hi := h.threads i
  rw [ha] at hi
  cases hi' : p'.threads[i]? with
  | none =>
    rw [hi'] at hi
    cases hi
  | some q =>
    rw [hi'] at hi
    cases hi with
    | some hq =>
      cases hq
      rfl

/-- The program makes a call that is left out of its counterpart. -/
theorem Trimmed.skip (hD : Deaf exec exec' S V E) (h : p.Trimmed S V E p') {l : Nat × τ} {c : C} {k : R c → Prog R α}
    {q : Prog R α} (hl : p.threads[l.1]? = some (.call c k)) (hl' : p'.threads[l.1]? = some q) (hc : S c)
    (hk : ∀ r, (k r).Trims S V q) : (p.step exec l).Trimmed S V E p' := by
  rw [step_call hl]
  refine ⟨hD.hidden l.2 c hc h.state, fun i => ?_⟩
  by_cases hi : l.1 = i
  · subst hi
    rw [List.getElem?_set_self (List.getElem?_eq_some_iff.1 hl).1, hl']
    exact .some (hk _)
  · rw [List.getElem?_set_ne hi]
    exact h.threads i

/-- Both make the call. -/
theorem Trimmed.both (hD : Deaf exec exec' S V E) (h : p.Trimmed S V E p') {l : Nat × τ} {c : C} {k k' : R c → Prog R α}
    (hl : p.threads[l.1]? = some (.call c k)) (hl' : p'.threads[l.1]? = some (.call c k')) (hc : V c)
    (hk : ∀ r, (k r).Trims S V (k' r)) : (p.step exec l).Trimmed S V E (p'.step exec' l) := by
  obtain ⟨hanswer, hstate⟩ := hD.congr l.2 c hc h.state
  rw [step_call hl, step_call hl', ← hanswer]
  refine ⟨hstate, fun i => ?_⟩
  by_cases hi : l.1 = i
  · subst hi
    rw [List.getElem?_set_self (List.getElem?_eq_some_iff.1 hl).1,
      List.getElem?_set_self (List.getElem?_eq_some_iff.1 hl').1]
    exact .some (hk _)
  · rw [List.getElem?_set_ne hi, List.getElem?_set_ne hi]
    exact h.threads i

/-! ## What the programs do, the trimmed ones do -/

theorem Trimmed.step (hD : Deaf exec exec' S V E) (h : p.Trimmed S V E p') (l : Nat × τ) :
    (p.step exec l).Trimmed S V E p' ∨ (p.step exec l).Trimmed S V E (p'.step exec' l) := by
  rcases step_cases exec p l with hs | ⟨c, k, hl, -⟩
  · rw [hs]
    exact .inl h
  · have hi := h.threads l.1
    rw [hl] at hi
    cases hl' : p'.threads[l.1]? with
    | none =>
      rw [hl'] at hi
      cases hi
    | some q =>
      rw [hl'] at hi
      cases hi with
      | some hq =>
        cases hq with
        | both hc hk => exact .inr (h.both hD hl hl' hc hk)
        | skip hc hk => exact .inl (h.skip hD hl hl' hc hk)

theorem Trimmed.run (hD : Deaf exec exec' S V E) : ∀ (sched : List (Nat × τ)) {p : Pool R α σ τ} {p' : Pool R α σ' τ},
    p.Trimmed S V E p' → ∃ sched', sched'.Sublist sched ∧ (p.run exec sched).Trimmed S V E (p'.run exec' sched')
  | [], _, _, h => ⟨[], .slnil, h⟩
  | l :: sched, p, p', h => by
    rcases h.step hD l with hskip | hboth
    · obtain ⟨sched', hsub, hrun⟩ := Trimmed.run hD sched hskip
      exact ⟨sched', hsub.cons l, hrun⟩
    · obtain ⟨sched', hsub, hrun⟩ := Trimmed.run hD sched hboth
      exact ⟨l :: sched', hsub.cons_cons l, hrun⟩

/-! ## What the trimmed programs do, the programs do -/

/-- A program makes the calls that are left out of its counterpart, until both return or make the same call. -/
theorem Trimmed.catchUp (hD : Deaf exec exec' S V E) (l : Nat × τ) {q q' : Prog R α} (hq : q.Trims S V q') :
    ∀ {p : Pool R α σ τ}, p.Trimmed S V E p' → p.threads[l.1]? = some q → p'.threads[l.1]? = some q' →
    ∃ n, (p.run exec (List.replicate n l)).Trimmed S V E p' ∧
      ((∃ a, q' = .done a ∧ (p.run exec (List.replicate n l)).threads[l.1]? = some (.done a)) ∨
        ∃ c k k', q' = .call c k' ∧ (p.run exec (List.replicate n l)).threads[l.1]? = some (.call c k) ∧ V c ∧
          ∀ r, (k r).Trims S V (k' r)) := by
  induction hq with
  | done a => exact fun h hl _ => ⟨0, h, .inl ⟨a, rfl, hl⟩⟩
  | both hc hk _ => exact fun h hl _ => ⟨0, h, .inr ⟨_, _, _, rfl, hl, hc, hk⟩⟩
  | skip hc hk ih =>
    intro p h hl hl'
    obtain ⟨n, hn⟩ := ih (exec l.2 _ p.state).1 (h.skip hD hl hl' hc hk)
      (by rw [step_call hl]; exact List.getElem?_set_self (List.getElem?_eq_some_iff.1 hl).1) hl'
    exact ⟨n + 1, hn⟩

/-- The counterpart of a program of the second pool. -/
theorem Trimmed.counterpart (h : p.Trimmed S V E p') {i : Nat} {q' : Prog R α} (hi' : p'.threads[i]? = some q') :
    ∃ q, p.threads[i]? = some q ∧ q.Trims S V q' := by
  have hi := h.threads i
  rw [hi'] at hi
  cases hq : p.threads[i]? with
  | none =>
    rw [hq] at hi
    cases hi
  | some q =>
    rw [hq] at hi
    cases hi with
    | some hq => exact ⟨q, rfl, hq⟩

theorem Trimmed.follow (hD : Deaf exec exec' S V E) (h : p.Trimmed S V E p') (l : Nat × τ) :
    ∃ n, (p.run exec (List.replicate (n + 1) l)).Trimmed S V E (p'.step exec' l) := by
  have hlast : ∀ n, p.run exec (List.replicate (n + 1) l) = (p.run exec (List.replicate n l)).step exec l := by
    intro n
    rw [List.replicate_succ', run_snoc]
  cases hl' : p'.threads[l.1]? with
  | none =>
    have hl : p.threads[l.1]? = none := by
      have hi := h.threads l.1
      rw [hl'] at hi
      cases hq : p.threads[l.1]? with
      | none => rfl
      | some q =>
        rw [hq] at hi
        cases hi
    have hidle : p.step exec l = p := step_idle (by simp [hl])
    have hidle' : p'.step exec' l = p' := step_idle (by simp [hl'])
    refine ⟨0, ?_⟩
    rw [hlast, hidle', List.replicate_zero, run_nil, hidle]
    exact h
  | some q' =>
    obtain ⟨q, hl, hq⟩ := h.counterpart hl'
    obtain ⟨n, hn, ⟨a, rfl, hdone⟩ | ⟨c, k, k', rfl, hcall, hc, hk⟩⟩ := h.catchUp hD l hq hl hl'
    · have hidle' : p'.step exec' l = p' := step_idle (by simp [hl'])
      refine ⟨n, ?_⟩
      rw [hlast, hidle', step_idle (by simp [hdone])]
      exact hn
    · refine ⟨n, ?_⟩
      rw [hlast]
      exact hn.both hD hcall hl' hc hk

theorem Trimmed.followRun (hD : Deaf exec exec' S V E) : ∀ (sched' : List (Nat × τ)) {p : Pool R α σ τ}
    {p' : Pool R α σ' τ}, p.Trimmed S V E p' →
    ∃ sched, sched'.Sublist sched ∧ (p.run exec sched).Trimmed S V E (p'.run exec' sched')
  | [], _, _, h => ⟨[], .slnil, h⟩
  | l :: sched', p, p', h => by
    obtain ⟨n, hn⟩ := h.follow hD l
    obtain ⟨sched, hsub, hrun⟩ := Trimmed.followRun hD sched' hn
    refine ⟨List.replicate (n + 1) l ++ sched, ?_, ?_⟩
    · rw [List.replicate_succ, List.cons_append]
      exact (hsub.trans (List.sublist_append_right _ _)).cons_cons l
    · rw [run_append]
      exact hrun

/-- The programs whose counterparts have returned make their last calls and return. -/
theorem Trimmed.finish (hD : Deaf exec exec' S V E) (t : τ) : ∀ (is : List Nat) {p : Pool R α σ τ},
    p.Trimmed S V E p' → ∃ sched, (p.run exec sched).Trimmed S V E p' ∧
      ∀ i ∈ is, ∀ a, p'.result i = some a → (p.run exec sched).result i = some a
  | [], _, h => ⟨[], h, fun _ hi => absurd hi List.not_mem_nil⟩
  | i :: is, p, h => by
    obtain ⟨sched, hrun, hdone⟩ := Trimmed.finish hD t is h
    cases hi : p'.result i with
    | none =>
      refine ⟨sched, hrun, fun j hj a ha => ?_⟩
      rcases List.mem_cons.1 hj with rfl | hj
      · rw [hi] at ha
        cases ha
      · exact hdone j hj a ha
    | some b =>
      have hi' := result_eq_some.1 hi
      obtain ⟨q, hl, hq⟩ := hrun.counterpart hi'
      obtain ⟨n, hn, ⟨a, hb, hreturned⟩ | ⟨c, k, k', hb, -⟩⟩ := hrun.catchUp hD (i, t) hq hl hi'
      · refine ⟨sched ++ List.replicate n (i, t), by rw [run_append]; exact hn, fun j hj a' ha' => ?_⟩
        rw [run_append]
        rcases List.mem_cons.1 hj with rfl | hj
        · rw [ha'] at hi
          obtain rfl := Option.some.inj hi
          obtain rfl : a' = a := by simpa using hb
          exact result_eq_some.2 hreturned
        · exact result_run _ (hdone j hj a' ha')
      · cases hb

end Pool
end Interleave
