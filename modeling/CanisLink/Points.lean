import CanisLink.Interleave
/-!
# Points — programs as walks through program points

`Traces` names the places between the calls of a program: at a point it makes the call `next` gives and goes on at the
point its answer leads to, or it has returned.  An invariant of the shared state and the points of all programs is then
kept by every run if each call keeps it (`Pool.run_points`).

A call may be one that waits, for a lock say.  `Respects` is the condition on a schedule that no such call is made
before it is ready.
-/
namespace Interleave

variable {C : Type} {R : C → Type} {α σ τ P : Type}

/-- The code at a point makes the point's call and goes on at the point after it. -/
structure Traces (code : P → Prog R α) (next : P → Option ((c : C) × (R c → P))) : Prop where
  done : ∀ {pt}, next pt = none → ∃ a, code pt = .done a
  call : ∀ {pt c f}, next pt = some ⟨c, f⟩ → code pt = .call c (fun r => code (f r))

theorem forall_middle {Q : P → Prop} {a b : List P} {x y : P} (h : ∀ z ∈ a ++ x :: b, Q z) (hy : Q y) :
    ∀ z ∈ a ++ y :: b, Q z := by
  intro z hz
  rw [List.mem_append, List.mem_cons] at hz
  rcases hz with hz | rfl | hz
  · exact h z (List.mem_append_left _ hz)
  · exact hy
  · exact h z (List.mem_append_right _ (List.mem_cons_of_mem x hz))

theorem map_middle {β : Type} {g : P → β} {x y : P} (h : g y = g x) (a b : List P) :
    (a ++ y :: b).map g = (a ++ x :: b).map g := by
  rw [List.map_append, List.map_append, List.map_cons, List.map_cons, h]

theorem getElem?_middle {a b : List P} (pt pt' : P) {i : Nat} (hi : i ≠ a.length) :
    (a ++ pt' :: b)[i]? = (a ++ pt :: b)[i]? := by
  rcases Nat.lt_or_gt_of_ne hi with h | h
  · rw [List.getElem?_append_left h, List.getElem?_append_left h]
  · rw [List.getElem?_append_right (Nat.le_of_lt h), List.getElem?_append_right (Nat.le_of_lt h)]
    obtain ⟨k, hk⟩ := Nat.exists_eq_succ_of_ne_zero (Nat.sub_ne_zero_of_lt h)
    rw [hk, List.getElem?_cons_succ, List.getElem?_cons_succ]

/-- Of two steps of a log one is before the other. -/
theorem pair_sublist {α : Type} {x y : α} (hne : x ≠ y) : ∀ {l : List α}, x ∈ l → y ∈ l →
    [x, y].Sublist l ∨ [y, x].Sublist l
  | [], hx, _ => by cases hx
  | z :: l, hx, hy => by
    rcases List.mem_cons.1 hx with rfl | hxl
    · have hyl := (List.mem_cons.1 hy).resolve_left (Ne.symm hne)
      exact .inl ((List.singleton_sublist.2 hyl).cons_cons x)
    · rcases List.mem_cons.1 hy with rfl | hyl
      · exact .inr ((List.singleton_sublist.2 hxl).cons_cons y)
      · exact (pair_sublist hne hxl hyl).imp (.cons z) (.cons z)

namespace Pool

/-- The next call of the scheduled program does not have to wait. -/
def Respects (ready : C → σ → Bool) (p : Pool R α σ τ) (l : Nat × τ) : Prop := ∀ c ∈ p.next l.1, ready c p.state = true

instance (ready : C → σ → Bool) (p : Pool R α σ τ) (l : Nat × τ) : Decidable (p.Respects ready l) :=
  inferInstanceAs (Decidable (∀ c ∈ p.next l.1, _))

/-- No program is in the middle: each has returned or has made no call. -/
def Quiet (p : Pool R α σ τ) : Prop :=
  ∀ (i : Nat) (q : Prog R α), p.threads[i]? = some q → (∃ a, q = .done a) ∨ own i p.log = []

instance (p : Pool R α σ τ) : Decidable p.Quiet :=
  decidable_of_iff (∀ qi ∈ p.threads.zipIdx, returned qi.1 = true ∨ (own qi.2 p.log).isEmpty = true) (by
    have hdone : ∀ q : Prog R α, returned q = true ↔ ∃ a, q = .done a := by
      intro q
      cases q with
      | done a => exact ⟨fun _ => ⟨a, rfl⟩, fun _ => rfl⟩
      | call c k =>
        refine ⟨fun h => ?_, fun ⟨_, h⟩ => ?_⟩
        · cases h
        · cases h
    unfold Quiet
    simp only [hdone, List.isEmpty_iff, Prod.forall, List.mem_zipIdx_iff_getElem?]
    exact ⟨fun h i q hi => h q i hi, fun h q i hi => h i q hi⟩)

variable {exec : τ → (c : C) → σ → R c × σ} {ready : C → σ → Bool} {code : P → Prog R α}
  {next : P → Option ((c : C) × (R c → P))}

theorem log_prefix_run : ∀ (sched : List (Nat × τ)) (p : Pool R α σ τ), p.log <+: (p.run exec sched).log
  | [], _ => List.prefix_refl _
  | l :: sched, p => by
    refine List.IsPrefix.trans ?_ (log_prefix_run sched (p.step exec l))
    rcases step_cases exec p l with hs | ⟨c, k, -, hs⟩
    · simp [hs]
    · simp [hs]

/-- A step, by the point of the program that makes it. -/
theorem step_points (ht : Traces code next) {p : Pool R α σ τ} {pts : List P} (hp : p.threads = pts.map code)
    {l : Nat × τ} {pt : P} {c : C} {f : R c → P} (hpt : pts[l.1]? = some pt) (hn : next pt = some ⟨c, f⟩) :
    p.step exec l = ⟨(exec l.2 c p.state).2, (pts.set l.1 (f (exec l.2 c p.state).1)).map code,
      p.log ++ [⟨l.1, l.2, c, (exec l.2 c p.state).1⟩]⟩ := by
  have hthread : p.threads[l.1]? = some (.call c (fun r => code (f r))) := by
    rw [hp, List.getElem?_map, hpt, Option.map_some, ht.call hn]
  unfold Pool.step
  rw [hthread]
  dsimp only
  rw [hp, List.map_set]

/-- **The invariant rule for points.**  What every ready call keeps, of the state, the log and the points of all
programs, every run keeps.  A program that has made no call is where it was. -/
theorem run_points (ht : Traces code next) {J : σ → List (Step R τ) → List P → Prop}
    (hstep : ∀ s log a pt b t c f, J s log (a ++ pt :: b) → next pt = some ⟨c, f⟩ → ready c s = true →
      J (exec t c s).2 (log ++ [⟨a.length, t, c, (exec t c s).1⟩]) (a ++ f (exec t c s).1 :: b)) :
    ∀ (sched : List (Nat × τ)) (p : Pool R α σ τ) (pts : List P), p.threads = pts.map code → J p.state p.log pts →
      p.Meets exec (Respects ready) sched →
      ∃ pts', (p.run exec sched).threads = pts'.map code ∧ J (p.run exec sched).state (p.run exec sched).log pts' ∧
        ∀ i, own i (p.run exec sched).log = [] → pts'[i]? = pts[i]?
  | [], _, pts, hp, hJ, _ => ⟨pts, hp, hJ, fun _ _ => rfl⟩
  | l :: sched, p, pts, hp, hJ, hm => by
    rw [run_cons]
    rcases step_cases exec p l with hs | ⟨c, k, hl, hs⟩
    · rw [hs]
      exact run_points ht hstep sched p pts hp hJ (hs ▸ hm.2)
    · have hmap := hl
      rw [hp, List.getElem?_map, Option.map_eq_some_iff] at hmap
      obtain ⟨pt, hpt, hcode⟩ := hmap
      obtain ⟨a, b, rfl, hlen⟩ : ∃ a b, pts = a ++ pt :: b ∧ a.length = l.1 := by
        obtain ⟨hlt, hget⟩ := List.getElem?_eq_some_iff.1 hpt
        refine ⟨pts.take l.1, pts.drop (l.1 + 1), ?_, List.length_take_of_le (Nat.le_of_lt hlt)⟩
        rw [← hget, ← List.drop_eq_getElem_cons hlt, List.take_append_drop]
      cases hn : next pt with
      | none =>
        obtain ⟨r, hr⟩ := ht.done hn
        rw [hr] at hcode
        cases hcode
      | some cf =>
        obtain ⟨c', f⟩ := cf
        rw [ht.call hn] at hcode
        cases hcode
        have hstepped : (p.step exec l).threads = (a ++ f (exec l.2 c p.state).1 :: b).map code := by
          rw [hs, hp, ← hlen]
          simp
        have hJ' := hstep _ _ _ _ _ l.2 _ _ hJ hn (hm.1 c (next_eq hl))
        rw [hlen] at hJ'
        obtain ⟨pts', hthreads, hend, hsame⟩ := run_points ht hstep sched (p.step exec l) _ hstepped
          (by rw [hs]; exact hJ') hm.2
        refine ⟨pts', hthreads, hend, fun i hi => ?_⟩
        -- the program of this step has made a call
        have hne : i ≠ l.1 := by
          rintro rfl
          have hmem : (⟨l.1, l.2, c, (exec l.2 c p.state).1⟩ : Step R τ) ∈ (p.step exec l).log := by
            rw [hs]
            simp
          have hrun : _ ∈ ((p.step exec l).run exec sched).log := (log_prefix_run sched _).subset hmem
          have hown := mem_own.2 ⟨hrun, rfl⟩
          rw [hi] at hown
          cases hown
        have hset : a ++ f (exec l.2 c p.state).1 :: b = (a ++ pt :: b).set l.1 (f (exec l.2 c p.state).1) := by
          rw [← hlen]
          simp
        rw [hsame i hi, hset, List.getElem?_set_ne (Ne.symm hne)]

/-- With no program in the middle, each is at its end or at the point it began at. -/
theorem Quiet.points {p : Pool R α σ τ} {pts pts₀ : List P} (hq : p.Quiet) (hthreads : p.threads = pts.map code)
    (hsame : ∀ i, own i p.log = [] → pts[i]? = pts₀[i]?) : ∀ pt ∈ pts, (∃ a, code pt = .done a) ∨ pt ∈ pts₀ := by
  intro pt hpt
  obtain ⟨i, hi⟩ := List.mem_iff_getElem?.1 hpt
  have hthread : p.threads[i]? = some (code pt) := by
    rw [hthreads, List.getElem?_map, hi]
    rfl
  refine (hq i _ hthread).imp_right (fun hown => ?_)
  have hstart := hsame i hown
  rw [hi] at hstart
  exact List.mem_of_getElem? hstart.symm

end Pool
end Interleave
