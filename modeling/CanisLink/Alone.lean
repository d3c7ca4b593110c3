import CanisLink.Fleet
/-!
# Alone — an operation of one terminal that nothing disturbs

The fleet can always let one terminal finish one operation: each of its requests is sent, handled to its end at once and
answered.  What comes of it is what the operation makes of device-api by itself, so that what is known of handlers that
do not overlap holds at the end of any run of the fleet.
-/
namespace CanisLink

open Interleave (Prog Pool)

namespace Fleet

/-- Each request that has come in has its program. -/
def Sized (f : Fleet) : Prop := f.server.threads.length = f.requests.length

section

variable {st : AppState} {f : Fleet} {n : Nat}

theorem Sized.step (h : f.Sized) (a : FleetAction) : (f.step st a).Sized := by
  unfold Sized at *
  rcases step_server st f a with ⟨hs, hr⟩ | ⟨l, hs, hr⟩ | ⟨r, hs, hr⟩
  · rw [hs, hr, h]
  · rw [hs, hr, Pool.length_step, h]
  · rw [hs, hr, Pool.spawn_threads, List.length_append, List.length_append, h]
    rfl

theorem Sized.run : ∀ (as : List FleetAction) {f : Fleet}, f.Sized → (f.run st as).Sized
  | [], _, h => h
  | a :: as, _, h => Sized.run as (h.step a)

theorem run_append (f : Fleet) (as bs : List FleetAction) : f.run st (as ++ bs) = (f.run st as).run st bs :=
  List.foldl_append ..

/-- A schedule of calls is a run of the fleet. -/
theorem run_serves (f : Fleet) : ∀ sched : List (Nat × DateTime),
    f.run st (sched.map (fun l => .serve l.1 l.2)) = { f with server := f.server.run (exec st) sched } := by
  intro sched
  induction sched generalizing f with
  | nil => rfl
  | cons l sched ih => exact ih (f.step st (.serve l.1 l.2))

end

variable (st : AppState)

/-- The exchanges of a program at terminal `n`: request `j` and those after it are sent, handled to their end and
answered one by one, the `i`-th of them under the clock `κs i`. -/
def exchanges (n : Nat) : Edge EdgeAgent → Nat → (Nat → Nat → DateTime) → World → List FleetAction
  | .done _, _, _, _ => []
  | .call r k, j, κs, w =>
    .send n :: ((List.range ((handle st r).steps (exec st) (κs 0) w)).map (fun i => (j, κs 0 i))).map
      (fun l => .serve l.1 l.2) ++ .hear n ::
        exchanges n (k (Reply.answer r ((handle st r).eval (exec st) (κs 0) w).1)) (j + 1) (fun i => κs (i + 1))
          ((handle st r).eval (exec st) (κs 0) w).2

/-- Terminal `n` does one operation while nothing else happens. -/
def alone (f : Fleet) (n : Nat) (o : EdgeOp) (κs : Nat → Nat → DateTime) : List FleetAction :=
  match f.agent n with
  | some a => .start n o :: exchanges st n (o.perform st.formats a) f.requests.length κs f.server.state
  | none => []

/-- The fleet after that. -/
def after (f : Fleet) (n : Nat) (o : EdgeOp) (κs : Nat → Nat → DateTime) : Fleet := f.run st (f.alone st n o κs)

/-- Every request is handled under its clock, and heard. -/
def hops (κs : Nat → Nat → DateTime) : Nat → Hop := fun i => .handled (κs i) true

/-- Everything happens at one instant. -/
def always (t : DateTime) : Nat → Nat → DateTime := fun _ _ => t

variable {st} {f : Fleet} {n : Nat} {cfg : EdgeConfig}

/-- One exchange: the request is handled by itself, and the program goes on with its answer. -/
theorem run_exchange (hs : f.Sized) {r : Request} {k : r.Answer → Edge EdgeAgent} (κ : Nat → DateTime)
    (hf : f.terminals[n]? = some (cfg, .asks r k)) :
    let g := f.run st (.send n :: ((List.range ((handle st r).steps (exec st) κ f.server.state)).map
      (fun i => (f.requests.length, κ i))).map (fun l => .serve l.1 l.2) ++ [.hear n])
    g.server.state = ((handle st r).eval (exec st) κ f.server.state).2 ∧
      g.requests.length = f.requests.length + 1 ∧
      g.terminals = f.terminals.set n
        (cfg, .of (k (Reply.answer r ((handle st r).eval (exec st) κ f.server.state).1))) := by
  intro g
  have hn : n < f.terminals.length := (List.getElem?_eq_some_iff.1 hf).1
  -- the request comes in as the last one
  have hr : f.request n = some r := by
    unfold request
    rw [hf]
  obtain ⟨f₁, hf₁⟩ : ∃ f₁, f₁ = (f.arrive st r).turn n (.sent f.requests.length) := ⟨_, rfl⟩
  have hsent : f.step st (.send n) = f₁ := by simp only [Fleet.step, hr, hf₁]
  have hterminals : f₁.terminals = f.terminals.set n (cfg, .waits f.requests.length r k) := by
    rw [hf₁]
    show f.terminals.modify n _ = _
    rw [List.modify_eq_set_getElem?, hf]
    rfl
  have hthread : f₁.server.threads[f.requests.length]? = some (handle st r) := by
    rw [hf₁, ← hs]
    show (f.server.threads ++ [handle st r])[f.server.threads.length]? = _
    simp
  -- it is handled to its end
  obtain ⟨hstate, hthreads⟩ := @Pool.run_alone _ _ _ _ _ (exec st) f.requests.length (handle st r) κ f₁.server hthread
  have hstate₁ : f₁.server.state = f.server.state := by rw [hf₁]; rfl
  rw [hstate₁] at hstate hthreads
  generalize hsched : (List.range ((handle st r).steps (exec st) κ f.server.state)).map
    (fun i => (f.requests.length, κ i)) = sched at hstate hthreads
  have hg : g = { f₁ with server := f₁.server.run (exec st) sched }.step st (.hear n) := by
    show f.run st _ = _
    rw [hsched, List.cons_append]
    show (f.step st (.send n)).run st _ = _
    rw [hsent, run_append, run_serves]
    rfl
  have hresult : (f₁.server.run (exec st) sched).result f.requests.length =
      some ((handle st r).eval (exec st) κ f.server.state).1 := by
    rw [Pool.result_eq_some, hthreads, List.getElem?_set_self (List.getElem?_eq_some_iff.1 hthread).1]
  refine ⟨?_, ?_, ?_⟩
  · rw [hg]
    exact hstate
  · rw [hg, hf₁]
    exact List.length_append
  · rw [hg]
    show f₁.terminals.modify n _ = _
    rw [hterminals, List.modify_eq_set_getElem?, List.getElem?_set_self hn]
    show (f.terminals.set n _).set n _ = _
    rw [List.set_set]
    simp only [Process.heard, hresult]

/-- **A program that nothing disturbs** leaves the agent and the device-api that it leaves by itself. -/
theorem run_exchanges : ∀ (p : Edge EdgeAgent) {f : Fleet} (κs : Nat → Nat → DateTime) (s : Server), f.Sized →
    s.world = f.server.state → f.terminals[n]? = some (cfg, .of p) →
    (f.run st (exchanges st n p f.requests.length κs f.server.state)).server.state =
        (p.eval (Hop.exec st) (hops κs) s).2.world ∧
      (f.run st (exchanges st n p f.requests.length κs f.server.state)).terminals =
        f.terminals.set n (cfg, .idle (p.eval (Hop.exec st) (hops κs) s).1)
  | .done a, f, κs, s, _, hs, hf => by
    refine ⟨hs.symm, ?_⟩
    obtain ⟨hn, hget⟩ := List.getElem?_eq_some_iff.1 hf
    show f.terminals = f.terminals.set n (cfg, .idle a)
    rw [show (cfg, Process.idle a) = f.terminals[n] from hget.symm, List.set_getElem_self]
  | .call r k, f, κs, s, hsized, hs, hf => by
    obtain ⟨hstate, hlength, hterminals⟩ := run_exchange hsized (κs 0) hf
    have hn : n < f.terminals.length := (List.getElem?_eq_some_iff.1 hf).1
    generalize hg : f.run st (.send n :: ((List.range ((handle st r).steps (exec st) (κs 0) f.server.state)).map
      (fun i => (f.requests.length, κs 0 i))).map (fun l => .serve l.1 l.2) ++ [.hear n]) = g
      at hstate hlength hterminals
    have hsplit : f.run st (exchanges st n (.call r k) f.requests.length κs f.server.state) =
        g.run st (exchanges st n (k (Reply.answer r ((handle st r).eval (exec st) (κs 0) f.server.state).1))
          g.requests.length (fun i => κs (i + 1)) g.server.state) := by
      rw [hlength, hstate, ← hg, ← run_append, exchanges]
      congr 1
      simp
    obtain ⟨hend, hagents⟩ := @run_exchanges
      (k (Reply.answer r ((handle st r).eval (exec st) (κs 0) f.server.state).1)) g (fun i => κs (i + 1))
      (s.serve st ⟨r, κs 0⟩) (hg ▸ hsized.run _)
      (by rw [hstate, ← hs]; rfl) (by rw [hterminals, List.getElem?_set_self hn])
    rw [hsplit, hend, hagents, hterminals, List.set_set, ← hs]
    exact ⟨rfl, rfl⟩

/-- **An operation that nothing disturbs**: the agent of its terminal and device-api are what it makes of them, and the
other agents are as they were. -/
theorem after_spec (hs : f.Sized) {a : EdgeAgent} (ha : f.agent n = some a) (o : EdgeOp) (κs : Nat → Nat → DateTime)
    (t : DateTime) :
    (f.after st n o κs).Sized ∧
      (f.after st n o κs).server.state =
        ((o.perform st.formats a).eval (Hop.exec st) (hops κs) ⟨f.server.state, t⟩).2.world ∧
      (f.after st n o κs).agent n =
        some ((o.perform st.formats a).eval (Hop.exec st) (hops κs) ⟨f.server.state, t⟩).1 ∧
      ∀ m, m ≠ n → (f.after st n o κs).agent m = f.agent m := by
  obtain ⟨cfg, hn⟩ := agent_eq_some.1 ha
  have hlt : n < f.terminals.length := (List.getElem?_eq_some_iff.1 hn).1
  have hafter : f.after st n o κs = (f.step st (.start n o)).run st
      (exchanges st n (o.perform st.formats a) f.requests.length κs f.server.state) := by
    unfold after alone
    rw [ha]
    rfl
  have hterminals : (f.step st (.start n o)).terminals = f.terminals.set n (cfg, .of (o.perform st.formats a)) := by
    show f.terminals.modify n _ = _
    rw [List.modify_eq_set_getElem?, hn]
    rfl
  obtain ⟨hend, hagents⟩ := @run_exchanges st n cfg (o.perform st.formats a) (f.step st (.start n o)) κs
    ⟨f.server.state, t⟩ (hs.step _) rfl (by rw [hterminals, List.getElem?_set_self hlt])
  rw [hterminals, List.set_set] at hagents
  have hset : (f.after st n o κs).terminals = f.terminals.set n
      (cfg, .idle ((o.perform st.formats a).eval (Hop.exec st) (hops κs) ⟨f.server.state, t⟩).1) := by
    rw [hafter]
    exact hagents
  refine ⟨hafter ▸ (hs.step _).run _, hafter ▸ hend, ?_, fun m hm => ?_⟩
  · exact agent_eq_some.2 ⟨cfg, by rw [hset, List.getElem?_set_self hlt]⟩
  · unfold agent
    rw [hset, List.getElem?_set_ne hm.symm]

/-- The same, at one instant, for whatever the operation yields. -/
theorem after_yields (hs : f.Sized) {a : EdgeAgent} (ha : f.agent n = some a) {o : EdgeOp} {t : DateTime}
    {Q : EdgeAgent → Server → Prop}
    (h : (o.perform st.formats a).Yields (Hop.exec st) (hopAt t) ⟨f.server.state, t⟩ Q) :
    (f.after st n o (always t)).Sized ∧
      (∃ a' s', (f.after st n o (always t)).agent n = some a' ∧
        (f.after st n o (always t)).server.state = s'.world ∧ Q a' s') ∧
      ∀ m, m ≠ n → (f.after st n o (always t)).agent m = f.agent m := by
  obtain ⟨hsized, hstate, hagent, hothers⟩ := after_spec hs ha o (always t) t
  exact ⟨hsized, ⟨_, _, hagent, hstate, h⟩, hothers⟩

end Fleet
end CanisLink
