import CanisLink.Server
import Mathlib.Data.List.Basic
/-!
# Steward — concurrent edits of one dog's policy

A steward request reads the whole policy, edits its own fields and writes the whole policy back, in separate calls.
When every write finds the fields it does not set as it read them, a run ends in what the requests give one after
another, in the order of their writes; a write that finds them changed undoes another request.
-/
namespace CanisLink

open Interleave (Prog Pool Step own)
open Api

inductive PolicyField
  | timezone | sleepStartMin | sleepEndMin | utcOffsetMin | emergencyStop | socialDisabled | maxInvitesPerHour
  | maxSessionSec | segmentSec

namespace PolicyField

def all : List PolicyField :=
  [timezone, sleepStartMin, sleepEndMin, utcOffsetMin, emergencyStop, socialDisabled, maxInvitesPerHour, maxSessionSec,
    segmentSec]

theorem mem_all (f : PolicyField) : f ∈ all := by
  cases f <;> simp [all]

end PolicyField

namespace Request

/-- A steward request about the policy of `d`. -/
def stewards (d : DogId) : Request → Prop
  | .stewardEstop _ d' _ => d' = d
  | .stewardSocial _ d' _ => d' = d
  | .stewardPolicy _ b => b.dogId = d
  | _ => False

def authorized (st : AppState) : Request → Bool
  | .stewardEstop h _ _ => (verifySteward st h).isOk
  | .stewardSocial h _ _ => (verifySteward st h).isOk
  | .stewardPolicy h _ => (verifySteward st h).isOk
  | _ => false

/-- What the request makes of a policy. -/
def edit : Request → DogPolicy → DogPolicy
  | .stewardEstop _ _ on, p => { p with emergencyStop := on }
  | .stewardSocial _ _ on, p => { p with socialDisabled := on }
  | .stewardPolicy _ b, p => b.apply p
  | _, p => p

/-- The fields the request itself sets. -/
def sets : Request → PolicyField → Bool
  | .stewardEstop .., .emergencyStop => true
  | .stewardSocial .., .socialDisabled => true
  | .stewardPolicy _ b, .sleepStartMin => b.sleepStartMin.isSome
  | .stewardPolicy _ b, .sleepEndMin => b.sleepEndMin.isSome
  | .stewardPolicy _ b, .utcOffsetMin => b.utcOffsetMin.isSome
  | .stewardPolicy _ b, .maxInvitesPerHour => b.maxInvitesPerHour.isSome
  | .stewardPolicy _ b, .maxSessionSec => b.maxSessionSec.isSome
  | .stewardPolicy _ b, .segmentSec => b.segmentSec.isSome
  | _, _ => false

end Request

/-- Two policies of one dog agree on a field. -/
def DogPolicy.agree (p q : DogPolicy) : PolicyField → Prop
  | .timezone => p.timezone = q.timezone
  | .sleepStartMin => p.sleepStartMin = q.sleepStartMin
  | .sleepEndMin => p.sleepEndMin = q.sleepEndMin
  | .utcOffsetMin => p.utcOffsetMin = q.utcOffsetMin
  | .emergencyStop => p.emergencyStop = q.emergencyStop
  | .socialDisabled => p.socialDisabled = q.socialDisabled
  | .maxInvitesPerHour => p.maxInvitesPerHour = q.maxInvitesPerHour
  | .maxSessionSec => p.maxSessionSec = q.maxSessionSec
  | .segmentSec => p.segmentSec = q.segmentSec

instance (p q : DogPolicy) : ∀ f, Decidable (p.agree q f)
  | .timezone => inferInstanceAs (Decidable (p.timezone = q.timezone))
  | .sleepStartMin => inferInstanceAs (Decidable (p.sleepStartMin = q.sleepStartMin))
  | .sleepEndMin => inferInstanceAs (Decidable (p.sleepEndMin = q.sleepEndMin))
  | .utcOffsetMin => inferInstanceAs (Decidable (p.utcOffsetMin = q.utcOffsetMin))
  | .emergencyStop => inferInstanceAs (Decidable (p.emergencyStop = q.emergencyStop))
  | .socialDisabled => inferInstanceAs (Decidable (p.socialDisabled = q.socialDisabled))
  | .maxInvitesPerHour => inferInstanceAs (Decidable (p.maxInvitesPerHour = q.maxInvitesPerHour))
  | .maxSessionSec => inferInstanceAs (Decidable (p.maxSessionSec = q.maxSessionSec))
  | .segmentSec => inferInstanceAs (Decidable (p.segmentSec = q.segmentSec))

/-- Two policies of one dog that agree on every field the request does not set. -/
def AgreeOutside (r : Request) (p q : DogPolicy) : Prop := p.dogId = q.dogId ∧ ∀ f, r.sets f = false → p.agree q f

instance (r : Request) (p q : DogPolicy) : Decidable (AgreeOutside r p q) :=
  decidable_of_iff (p.dogId = q.dogId ∧ ∀ f ∈ PolicyField.all, r.sets f = false → p.agree q f)
    (and_congr_right' (forall_congr' (fun f => forall_prop_of_true f.mem_all)))

theorem getD_eq_of_agree {α : Type} {o : Option α} {a b : α} (h : o.isSome = false → a = b) : o.getD a = o.getD b := by
  cases o with
  | none => exact h rfl
  | some x => rfl

/-- **An edit sees only the fields it does not set.** -/
theorem edit_eq_of_agreeOutside {r : Request} {p q : DogPolicy} {d : DogId} (hr : r.stewards d)
    (h : AgreeOutside r p q) :
    r.edit p = r.edit q := by
  obtain ⟨hd, hf⟩ := h
  obtain ⟨d₁, tz₁, ss₁, se₁, off₁, es₁, sd₁, mi₁, ms₁, sg₁⟩ := p
  obtain ⟨d₂, tz₂, ss₂, se₂, off₂, es₂, sd₂, mi₂, ms₂, sg₂⟩ := q
  have htz := hf .timezone
  have hss := hf .sleepStartMin
  have hse := hf .sleepEndMin
  have hoff := hf .utcOffsetMin
  have hes := hf .emergencyStop
  have hsd := hf .socialDisabled
  have hmi := hf .maxInvitesPerHour
  have hms := hf .maxSessionSec
  have hsg := hf .segmentSec
  simp only [DogPolicy.agree] at hd htz hss hse hoff hes hsd hmi hms hsg
  cases r with
  | stewardEstop h d' on =>
    simp only [Request.sets, forall_const] at htz hss hse hoff hsd hmi hms hsg
    simp only [Request.edit, hd, htz, hss, hse, hoff, hsd, hmi, hms, hsg]
  | stewardSocial h d' on =>
    simp only [Request.sets, forall_const] at htz hss hse hoff hes hmi hms hsg
    simp only [Request.edit, hd, htz, hss, hse, hoff, hes, hmi, hms, hsg]
  | stewardPolicy h b =>
    simp only [Request.sets, forall_const] at htz hes hsd
    simp only [Request.edit, StewardPolicyBody.apply, DogPolicy.mk.injEq]
    exact ⟨hd, htz, getD_eq_of_agree hss, getD_eq_of_agree hse, getD_eq_of_agree hoff, hes, hsd, getD_eq_of_agree hmi,
      getD_eq_of_agree hms, getD_eq_of_agree hsg⟩
  | _ => exact absurd hr id

theorem edit_dogId (r : Request) (p : DogPolicy) : (r.edit p).dogId = p.dogId := by
  cases r <;> rfl

theorem edit_keeps_stop {r : Request} {d : DogId} {p : DogPolicy} (hr : r.stewards d) (hp : p.emergencyStop = true) :
    (r.edit p).emergencyStop = true ∨ ∃ h, r = .stewardEstop h d false := by
  cases r with
  | stewardEstop h d' on =>
    cases on with
    | true => exact .inl rfl
    | false => exact .inr ⟨h, by rw [show d' = d from hr]⟩
  | _ => exact .inl hp

/-! ## What one steward request does -/

/-- Whose call it is, if it stores a policy. -/
def setter (e : ApiStep) : Option Nat :=
  match e.cmd with
  | .policiesSet _ => some e.tid
  | _ => none

/-- The policy a call answered with. -/
def policyRead : ApiStep → Option DogPolicy
  | ⟨_, _, .policiesEnsure _, p⟩ => some p
  | _ => none

/-- The policy program `i` read last. -/
def lastRead (i : Nat) (log : List ApiStep) : Option DogPolicy := ((own i log).filterMap policyRead).getLast?

/-- A steward request stores a policy once, when it is authorized: the one it read last, edited. -/
def StewardNext (st : AppState) (r : Request) (h : List ApiStep) : Call → Prop
  | .policiesSet p => r.authorized st = true ∧ h.filterMap setter = [] ∧
      ∃ read, (h.filterMap policyRead).getLast? = some read ∧ p = r.edit read
  | _ => True

def StewardEnd (st : AppState) (r : Request) (h : List ApiStep) (_ : Reply) : Prop :=
  (h.filterMap setter).length = if r.authorized st then 1 else 0

theorem stewardEnd_once {st : AppState} {r : Request} {h : List ApiStep} {a : Reply} (ha : r.authorized st = true)
    (h1 : (h.filterMap setter).length = 1) : StewardEnd st r h a := by
  rw [StewardEnd, ha]
  exact h1

theorem steward_along (st : AppState) {r : Request} {d : DogId} (hr : r.stewards d) (i : Nat) :
    (handle st r).Along i (StewardNext st r) (StewardEnd st r) [] := by
  cases r with
  | stewardEstop h d' on =>
    show (stewardEstop st h d' on).Along i _ _ []
    unfold stewardEstop
    simp only [setEstop, policiesGet, policiesEnsure, policiesSet, sessionsForDog, sessionsEnd, sql, Prog.call_bind,
      Prog.done_bind, Prog.op_eq, Prog.pure_eq]
    cases hv : verifySteward st h with
    | error s => simp [StewardEnd, Request.authorized, hv, Except.isOk, Except.toBool]
    | ok u =>
      have ha : (Request.stewardEstop h d' on).authorized st = true := by
        simp [Request.authorized, hv, Except.isOk, Except.toBool]
      refine ⟨trivial, fun t p => ⟨⟨ha, rfl, p, rfl, rfl⟩, fun t' _ => ?_⟩⟩
      cases st.pool with
      | false =>
        cases on with
        | false => exact stewardEnd_once ha rfl
        | true =>
          refine ⟨trivial, fun t found => ?_⟩
          cases found with
          | none => exact stewardEnd_once ha rfl
          | some x => exact ⟨trivial, fun t _ => stewardEnd_once ha rfl⟩
      | true =>
        refine ⟨trivial, fun t p => ⟨trivial, fun t _ => ?_⟩⟩
        cases on with
        | false => exact stewardEnd_once ha rfl
        | true =>
          refine ⟨trivial, fun t found => ?_⟩
          cases found with
          | none => exact stewardEnd_once ha rfl
          | some x => exact ⟨trivial, fun t _ => ⟨trivial, fun t _ => stewardEnd_once ha rfl⟩⟩
  | stewardSocial h d' on =>
    show (stewardSocial st h d' on).Along i _ _ []
    unfold stewardSocial
    simp only [setSocialDisabled, policiesGet, policiesEnsure, policiesSet, sql, Prog.call_bind, Prog.op_eq,
      Prog.pure_eq]
    cases hv : verifySteward st h with
    | error s => simp [StewardEnd, Request.authorized, hv, Except.isOk, Except.toBool]
    | ok u =>
      have ha : (Request.stewardSocial h d' on).authorized st = true := by
        simp [Request.authorized, hv, Except.isOk, Except.toBool]
      refine ⟨trivial, fun t p => ⟨⟨ha, rfl, p, rfl, rfl⟩, fun t' _ => ?_⟩⟩
      cases st.pool with
      | false => exact stewardEnd_once ha rfl
      | true => exact ⟨trivial, fun t p => ⟨trivial, fun t _ => stewardEnd_once ha rfl⟩⟩
  | stewardPolicy h b =>
    show (stewardPolicy st h b).Along i _ _ []
    unfold stewardPolicy
    simp only [policiesGet, policiesEnsure, policiesSet, sql, Prog.op_bind, Prog.pure_eq]
    cases hv : verifySteward st h with
    | error s => simp [StewardEnd, Request.authorized, hv, Except.isOk, Except.toBool]
    | ok u =>
      have ha : (Request.stewardPolicy h b).authorized st = true := by
        simp [Request.authorized, hv, Except.isOk, Except.toBool]
      refine ⟨trivial, fun t p => ?_⟩
      cases st.pool with
      | false => exact ⟨⟨ha, rfl, p, rfl, rfl⟩, fun t _ => stewardEnd_once ha rfl⟩
      | true =>
        exact ⟨trivial, fun t _ => ⟨⟨ha, rfl, p, rfl, rfl⟩, fun t _ => stewardEnd_once ha rfl⟩⟩
  | _ => exact absurd hr id

/-! ## Runs -/

/-- The requests that stored a policy, in order. -/
def setters (log : List ApiStep) : List Nat := log.filterMap setter

/-- **Every write finds the fields its request does not set as the request read them.** -/
def FreshWrite (d : DogId) (reqs : List Request) (p : ApiPool) (l : Nat × DateTime) : Prop :=
  ∀ q r read, p.next l.1 = some (.policiesSet q) → reqs[l.1]? = some r → lastRead l.1 p.log = some read →
    AgreeOutside r read (p.state.data.policies.current d)

instance (d : DogId) (reqs : List Request) (p : ApiPool) (l : Nat × DateTime) : Decidable (FreshWrite d reqs p l) :=
  decidable_of_iff (∀ c ∈ p.next l.1, ∀ r ∈ reqs[l.1]?, ∀ read ∈ lastRead l.1 p.log,
      (match c with | .policiesSet _ => true | _ => false) = true →
        AgreeOutside r read (p.state.data.policies.current d)) (by
    constructor
    · exact fun h q r read hq hr hread => h _ hq r hr read hread rfl
    · intro h c hc r hr read hread hset
      cases c with
      | policiesSet q => exact h q r read hc hr hread
      | _ => cases hset)

/-- The edit of the `i`-th request. -/
def editAt (reqs : List Request) (p : DogPolicy) (i : Nat) : DogPolicy :=
  match reqs[i]? with
  | some r => r.edit p
  | none => p

/-- The policy in force is what the writers' edits make of the first one, in the order of their writes. -/
structure Tracked (d : DogId) (reqs : List Request) (w : World) (p : ApiPool) : Prop where
  threads : p.threads.length = reqs.length
  dog : (p.state.data.policies.current d).dogId = d
  policy : p.state.data.policies.current d = (setters p.log).foldl (editAt reqs) (w.data.policies.current d)

section

variable {st : AppState} {d : DogId} {reqs : List Request} {w : World}

/-- Where the programs may be, after their own calls. -/
def StewardsNext (st : AppState) (reqs : List Request) (i : Nat) (h : List ApiStep) (c : Call) : Prop :=
  ∀ r, reqs[i]? = some r → StewardNext st r h c

def StewardsEnd (st : AppState) (reqs : List Request) (i : Nat) (h : List ApiStep) (a : Reply) : Prop :=
  ∀ r, reqs[i]? = some r → StewardEnd st r h a

theorem stewards_follow (hreqs : ∀ r ∈ reqs, r.stewards d) :
    (Pool.start w (reqs.map (handle st)) : ApiPool).Follows (StewardsNext st reqs) (StewardsEnd st reqs) := by
  refine Pool.follows_start (fun i r hr => ?_)
  refine (steward_along st (hreqs r (List.mem_of_getElem? hr)) i).mono (fun h c hc r' hr' => ?_)
    (fun h a ha r' hr' => ?_)
  · rw [hr] at hr'; cases hr'; exact hc
  · rw [hr] at hr'; cases hr'; exact ha

/-- A write stores the request's edit of the policy in force. -/
theorem write_eq (hreqs : ∀ r ∈ reqs, r.stewards d) {p : ApiPool} (hT : Tracked d reqs w p) {i : Nat} {t : DateTime}
    {q : DogPolicy} {k : Unit → Prog Call.Resp Reply} (hi : p.threads[i]? = some (.call (.policiesSet q) k))
    (hq : StewardsNext st reqs i (own i p.log) (.policiesSet q)) (hc : FreshWrite d reqs p (i, t)) :
    q = editAt reqs (p.state.data.policies.current d) i ∧ q.dogId = d := by
  obtain ⟨hlt, -⟩ := List.getElem?_eq_some_iff.1 hi
  rw [hT.threads] at hlt
  have hr : reqs[i]? = some reqs[i] := List.getElem?_eq_getElem hlt
  obtain ⟨-, -, read, hread, hqe⟩ := hq _ hr
  have hagree := hc q _ read (Pool.next_eq hi) hr hread
  have he := edit_eq_of_agreeOutside (hreqs _ (List.getElem_mem hlt)) hagree
  refine ⟨?_, ?_⟩
  · rw [editAt, hr, hqe]; exact he
  · rw [hqe, he, edit_dogId]; exact hT.dog

/-- **One step**: a write applies its request's edit to the policy in force, every other call leaves it. -/
theorem step_current (hreqs : ∀ r ∈ reqs, r.stewards d) {p : ApiPool} (hT : Tracked d reqs w p) {i : Nat} {t : DateTime}
    {c : Call} {k : c.Resp → Prog Call.Resp Reply} (hi : p.threads[i]? = some (.call c k))
    (hq : StewardsNext st reqs i (own i p.log) c) (hc : FreshWrite d reqs p (i, t)) (r : c.Resp) :
    (exec st t c p.state).2.data.policies.current d =
      (setters [⟨i, t, c, r⟩]).foldl (editAt reqs) (p.state.data.policies.current d) := by
  rw [exec_current]
  cases c with
  | policiesSet q =>
    obtain ⟨he, hd⟩ := write_eq hreqs hT hi hq hc
    show (if d = q.dogId then q else _) = editAt reqs _ i
    rw [if_pos hd.symm, he]
  | _ => rfl

theorem tracked_step (hreqs : ∀ r ∈ reqs, r.stewards d) {p : ApiPool} (hT : Tracked d reqs w p) {i : Nat} {t : DateTime}
    {c : Call} {k : c.Resp → Prog Call.Resp Reply} (hi : p.threads[i]? = some (.call c k))
    (hq : StewardsNext st reqs i (own i p.log) c) (hc : FreshWrite d reqs p (i, t)) :
    Tracked d reqs w ⟨(exec st t c p.state).2, p.threads.set i (k (exec st t c p.state).1),
      p.log ++ [⟨i, t, c, (exec st t c p.state).1⟩]⟩ := by
  have hs := step_current hreqs hT hi hq hc (exec st t c p.state).1
  refine ⟨by rw [List.length_set]; exact hT.threads, ?_, ?_⟩
  · show ((exec st t c p.state).2.data.policies.current d).dogId = d
    cases c with
    | policiesSet q' =>
      obtain ⟨-, hd⟩ := write_eq hreqs hT hi hq hc
      rw [exec_current]
      show (if d = q'.dogId then q' else _).dogId = d
      rw [if_pos hd.symm, hd]
    | _ => rw [hs]; exact hT.dog
  · show (exec st t c p.state).2.data.policies.current d = _
    rw [hs, setters, setters, List.filterMap_append, List.foldl_append, ← setters, ← setters, ← hT.policy]

theorem tracked_run (hd : (w.data.policies.current d).dogId = d) (hreqs : ∀ r ∈ reqs, r.stewards d)
    (sched : List (Nat × DateTime))
    (hm : (Pool.start w (reqs.map (handle st)) : ApiPool).Meets (exec st) (FreshWrite d reqs) sched) :
    ((Pool.start w (reqs.map (handle st)) : ApiPool).run (exec st) sched).Follows (StewardsNext st reqs)
      (StewardsEnd st reqs) ∧
    Tracked d reqs w ((Pool.start w (reqs.map (handle st)) : ApiPool).run (exec st) sched) :=
  Pool.run_inv (fun _ _ _ _ _ hT _ hi hq hc => tracked_step hreqs hT hi hq hc) sched _ (stewards_follow hreqs)
    ⟨by rw [Pool.start, List.length_map], hd, rfl⟩ hm

/-! ## One after another -/

theorem exec_ensure_fst (st : AppState) (t : DateTime) (w : World) (d : DogId) :
    (exec st t (.policiesEnsure d) w).1 = w.data.policies.current d := PolicyStore.ensure_fst _ _

/-- **A steward request alone applies its edit**, when it is authorized. -/
theorem serve_current {r : Request} (hr : r.stewards d) (κ : Nat → DateTime)
    (hd : (w.data.policies.current d).dogId = d) :
    ((handle st r).eval (exec st) κ w).2.data.policies.current d =
      if r.authorized st then r.edit (w.data.policies.current d) else w.data.policies.current d := by
  cases r with
  | stewardEstop h d' on =>
    cases (show d' = d from hr)
    show ((stewardEstop st h d on).eval (exec st) κ w).2.data.policies.current d = _
    unfold stewardEstop
    simp only [setEstop, policiesGet, policiesEnsure, policiesSet, sessionsForDog, sessionsEnd, sql, Prog.call_bind,
      Prog.done_bind, Prog.op_eq, Prog.pure_eq]
    cases hv : verifySteward st h with
    | error s => rw [show Request.authorized st _ = false by rw [Request.authorized, hv]; rfl]; rfl
    | ok u =>
      rw [show Request.authorized st _ = true by rw [Request.authorized, hv]; rfl]
      cases st.pool <;> cases on <;> simp only [Prog.eval_call, Bool.false_eq_true, if_true, if_false] <;>
        (try split) <;>
        simp only [Prog.eval_call, Prog.eval_done, exec_current, exec_ensure_fst, hd, if_true, Request.edit]
  | stewardSocial h d' on =>
    cases (show d' = d from hr)
    show ((stewardSocial st h d on).eval (exec st) κ w).2.data.policies.current d = _
    unfold stewardSocial
    simp only [setSocialDisabled, policiesGet, policiesEnsure, policiesSet, sql, Prog.call_bind, Prog.done_bind,
      Prog.op_eq, Prog.pure_eq]
    cases hv : verifySteward st h with
    | error s => rw [show Request.authorized st _ = false by rw [Request.authorized, hv]; rfl]; rfl
    | ok u =>
      rw [show Request.authorized st _ = true by rw [Request.authorized, hv]; rfl]
      cases st.pool <;> simp only [Prog.eval_call, Prog.eval_done, Bool.false_eq_true, if_true, if_false, exec_current,
        exec_ensure_fst, hd, Request.edit]
  | stewardPolicy h b =>
    cases (show b.dogId = d from hr)
    show ((stewardPolicy st h b).eval (exec st) κ w).2.data.policies.current b.dogId = _
    unfold stewardPolicy
    simp only [policiesGet, policiesEnsure, policiesSet, sql, Prog.op_bind, Prog.pure_eq]
    cases hv : verifySteward st h with
    | error s => rw [show Request.authorized st _ = false by rw [Request.authorized, hv]; rfl]; rfl
    | ok u =>
      have hb : (b.apply (w.data.policies.current b.dogId)).dogId = b.dogId := hd
      rw [show Request.authorized st _ = true by rw [Request.authorized, hv]; rfl]
      cases st.pool <;> simp only [Prog.eval_call, Prog.eval_done, Bool.false_eq_true, if_true, if_false, exec_current,
        exec_ensure_fst, hb, Request.edit]
  | _ => exact absurd hr id

/-- The policy after steward requests one after another. -/
theorem serveAll_current : ∀ (as : List Arrival) (s : Server), (∀ a ∈ as, a.req.stewards d) →
    (s.world.data.policies.current d).dogId = d → (s.serveAll st as).world.data.policies.current d =
      (as.map (·.req)).foldl (fun p r => if r.authorized st then r.edit p else p) (s.world.data.policies.current d)
  | [], _, _, _ => rfl
  | a :: as, s, has, hd => by
    have ha := @serve_current st d s.world _ (has a List.mem_cons_self) a.clock hd
    have hd' : ((s.serve st a).world.data.policies.current d).dogId = d := by
      show ((Prog.eval (exec st) (handle st a.req) a.clock s.world).2.data.policies.current d).dogId = d
      rw [ha]
      split
      · rw [edit_dogId, hd]
      · exact hd
    rw [Server.serveAll_cons, serveAll_current as _ (fun b hb => has b (List.mem_cons_of_mem _ hb)) hd', List.map_cons,
      List.foldl_cons]
    exact congrArg (fun p => List.foldl _ p _) ha

/-! ## The order of the writes -/

theorem count_setters (i : Nat) (log : List ApiStep) : (setters log).count i = (setters (own i log)).length := by
  induction log with
  | nil => rfl
  | cons e log ih =>
    simp only [setters, own] at ih ⊢
    by_cases he : e.tid = i
    · rw [List.filter_cons_of_pos (by simpa using he), List.filterMap_cons, List.filterMap_cons]
      cases hs : setter e with
      | none => exact ih
      | some j =>
        have hj : j = i := by
          unfold setter at hs
          split at hs
          · rw [← Option.some.inj hs, he]
          · cases hs
        rw [List.length_cons, ← ih, hj, List.count_cons_self]
    · rw [List.filter_cons_of_neg (by simpa using he), List.filterMap_cons]
      cases hs : setter e with
      | none => exact ih
      | some j =>
        have hj : j ≠ i := by
          unfold setter at hs
          split at hs
          · rw [← Option.some.inj hs]; exact he
          · cases hs
        rw [← ih, List.count_cons_of_ne hj]

theorem filterMap_range_getElem? {α : Type} : ∀ l : List α, (List.range l.length).filterMap (fun i => l[i]?) = l
  | [] => rfl
  | a :: l => by
    rw [List.length_cons, List.range_succ_eq_map, List.filterMap_cons, List.filterMap_map]
    exact congrArg (a :: ·) (filterMap_range_getElem? l)

/-- Whether the `i`-th request is authorized. -/
def authorizedAt (st : AppState) (reqs : List Request) (i : Nat) : Bool := (reqs[i]?).any (·.authorized st)

/-- **When all have returned, each authorized request has written once.** -/
theorem setters_perm {p : ApiPool} (hf : p.Follows (StewardsNext st reqs) (StewardsEnd st reqs))
    (hlen : p.threads.length = reqs.length) (htid : ∀ e ∈ p.log, e.tid < reqs.length) (hfin : p.Finished) :
    (setters p.log).Perm ((List.range reqs.length).filter (authorizedAt st reqs)) := by
  refine List.perm_iff_count.2 (fun i => ?_)
  rw [count_setters, (List.nodup_range.filter _).count]
  simp only [List.mem_filter, List.mem_range]
  by_cases hi : i < reqs.length
  · have hth : p.threads[i]? = some p.threads[i] := List.getElem?_eq_getElem (by omega)
    obtain ⟨a, ha⟩ := hfin p.threads[i] (List.getElem_mem _)
    rw [ha] at hth
    have hr : reqs[i]? = some reqs[i] := List.getElem?_eq_getElem hi
    have he : StewardEnd st reqs[i] (own i p.log) a := hf i _ hth _ hr
    rw [setters, he, authorizedAt, hr]
    simp only [hi, true_and, Option.any_some]
  · have hown : own i p.log = [] := List.filter_eq_nil_iff.2 (fun e he => by have := htid e he; simp; omega)
    rw [hown, if_neg (by simp [hi])]
    rfl

theorem foldl_editAt (is : List Nat) (p : DogPolicy) :
    is.foldl (editAt reqs) p = (is.filterMap (fun i => reqs[i]?)).foldl (fun p r => r.edit p) p := by
  rw [List.foldl_filterMap]
  congr 1
  funext p i
  unfold editAt
  cases reqs[i]? <;> rfl

/-- Where every request of the list is authorized, or none is. -/
theorem foldl_authorized {is : List Nat} (his : ∀ i ∈ is, authorizedAt st reqs i = true) (p : DogPolicy) :
    (is.filterMap (fun i => reqs[i]?)).foldl (fun p r => if r.authorized st then r.edit p else p) p =
      (is.filterMap (fun i => reqs[i]?)).foldl (fun p r => r.edit p) p := by
  refine List.foldl_ext _ _ _ (fun p r hr => ?_)
  obtain ⟨i, hi, hri⟩ := List.mem_filterMap.1 hr
  have := his i hi
  rw [authorizedAt, hri] at this
  exact if_pos this

theorem foldl_unauthorized {is : List Nat} (his : ∀ i ∈ is, authorizedAt st reqs i = false) (p : DogPolicy) :
    (is.filterMap (fun i => reqs[i]?)).foldl (fun p r => if r.authorized st then r.edit p else p) p = p := by
  rw [List.foldl_ext _ (fun p _ => p) _ (fun p r hr => ?_), List.foldl_const, Function.iterate_fixed rfl]
  obtain ⟨i, hi, hri⟩ := List.mem_filterMap.1 hr
  have := his i hi
  rw [authorizedAt, hri] at this
  exact if_neg (by rw [Option.any_some] at this; rw [this]; exact Bool.false_ne_true)

/-- The requests `reqs` handled one after another, in some order, leave `d` with the policy of `w`. -/
def Serial (st : AppState) (d : DogId) (reqs : List Request) (w w' : World) : Prop :=
  ∃ order : List Request, order.Perm reqs ∧ ∀ (t : DateTime) (as : List Arrival), as.map (·.req) = order →
    (Server.serveAll st ⟨w, t⟩ as).world.data.policies.current d = w'.data.policies.current d

theorem serial_of_finished (hd : (w.data.policies.current d).dogId = d) (hreqs : ∀ r ∈ reqs, r.stewards d) {p : ApiPool}
    (hf : p.Follows (StewardsNext st reqs) (StewardsEnd st reqs)) (hT : Tracked d reqs w p)
    (htid : ∀ e ∈ p.log, e.tid < reqs.length) (hfin : p.Finished) : Serial st d reqs w p.state := by
  have hperm := setters_perm hf hT.threads htid hfin
  -- the writers in the order of their writes, then the requests that were turned away
  let is := setters p.log ++ (List.range reqs.length).filter (fun i => !authorizedAt st reqs i)
  have his : is.Perm (List.range reqs.length) := (hperm.append_right _).trans (List.filter_append_perm _ _)
  have horder : (is.filterMap (fun i => reqs[i]?)).Perm reqs := by
    have := his.filterMap (fun i => reqs[i]?)
    rw [filterMap_range_getElem?] at this
    exact this
  refine ⟨is.filterMap (fun i => reqs[i]?), horder, fun t as has => ?_⟩
  have hst : ∀ a ∈ as, a.req.stewards d := fun a ha =>
    hreqs _ (horder.mem_iff.1 (has ▸ List.mem_map_of_mem ha))
  rw [serveAll_current as _ hst hd, has, hT.policy, foldl_editAt, List.filterMap_append, List.foldl_append,
    foldl_unauthorized, foldl_authorized]
  · intro i hi
    exact (List.mem_filter.1 (hperm.mem_iff.1 hi)).2
  · intro i hi
    simpa using (List.mem_filter.1 hi).2

/-- **Fresh writes lose no update**: a run that ends leaves the policy that the requests give one after another, and
on the way only `steward_estop` with `enabled = false` takes back an emergency stop. -/
theorem steward_updates_kept (st : AppState) (w : World) (d : DogId) (reqs : List Request)
    (sched : List (Nat × DateTime))
    (hd : (w.data.policies.current d).dogId = d) (hreqs : ∀ r ∈ reqs, r.stewards d)
    (hm : (Pool.start w (reqs.map (handle st)) : ApiPool).Meets (exec st) (FreshWrite d reqs) sched) :
    (((Pool.start w (reqs.map (handle st)) : ApiPool).run (exec st) sched).Finished →
      Serial st d reqs w ((Pool.start w (reqs.map (handle st)) : ApiPool).run (exec st) sched).state) ∧
    ∀ a l b, sched = a ++ l :: b →
      (((Pool.start w (reqs.map (handle st)) : ApiPool).run (exec st) a).state.data.policies.current d).emergencyStop →
      (((Pool.start w (reqs.map (handle st)) : ApiPool).run (exec st)
          (a ++ [l])).state.data.policies.current d).emergencyStop ∨
        ∃ h, reqs[l.1]? = some (.stewardEstop h d false) := by
  constructor
  · intro hfin
    obtain ⟨hf, hT⟩ := tracked_run hd hreqs sched hm
    refine serial_of_finished hd hreqs hf hT ?_ hfin
    have := Pool.tid_lt (exec st) sched (Pool.start w (reqs.map (handle st)) : ApiPool) (fun e he => by cases he)
    rw [Pool.start, List.length_map] at this
    exact this
  · rintro a l b rfl hstop
    obtain ⟨hma, hmb⟩ := hm.append
    obtain ⟨hf, hT⟩ := tracked_run hd hreqs a hma
    rw [Pool.run_append]
    generalize (Pool.start w (reqs.map (handle st)) : ApiPool).run (exec st) a = p at hf hT hstop hmb
    show ((p.step (exec st) l).state.data.policies.current d).emergencyStop = true ∨ _
    rcases Pool.step_cases (exec st) p l with hs | ⟨c, k, hl, hs⟩
    · rw [hs]; exact .inl hstop
    · rw [hs]
      have hstep := step_current hreqs hT hl (hf _ _ hl).1 hmb.1 (exec st l.2 c p.state).1
      show ((exec st l.2 c p.state).2.data.policies.current d).emergencyStop = true ∨ _
      rw [hstep]
      cases c with
      | policiesSet q =>
        show (editAt reqs (p.state.data.policies.current d) l.1).emergencyStop = true ∨ _
        unfold editAt
        cases hr : reqs[l.1]? with
        | none => exact .inl hstop
        | some r =>
          rcases edit_keeps_stop (hreqs r (List.mem_of_getElem? hr)) hstop with h | ⟨h, rfl⟩
          · exact .inl h
          · exact .inr ⟨h, rfl⟩
      | _ => exact .inl hstop

end

/-- A stop, its lifting and a `steward_social`, of one dog. -/
def overlapping : List Request :=
  [.stewardEstop (some "Steward s") ⟨1⟩ true, .stewardEstop (some "Steward s") ⟨1⟩ false,
    .stewardSocial (some "Steward s") ⟨1⟩ true]

/-- The stop and its lifting both read before either writes; `steward_social` comes in before they are done. -/
def overlap : List (Nat × DateTime) := [0, 1, 0, 1, 2, 0, 1, 2, 0, 0, 1, 2, 2].map (fun i => (i, noon))

theorem steward_updates_kept_overlap : Serial bench ⟨1⟩ overlapping fresh
    ((Pool.start fresh (overlapping.map (handle bench)) : ApiPool).run (exec bench) overlap).state :=
  (steward_updates_kept bench fresh ⟨1⟩ overlapping overlap rfl (by simp [overlapping, Request.stewards])
    (by decide +kernel)).1 (by decide +kernel)

theorem stop_stays {st : AppState} {d : DogId} {h : HeaderMap}
    (ha : (Request.stewardEstop h d true).authorized st = true) :
    ∀ (l : List Request) (p : DogPolicy), (∀ r ∈ l, r.stewards d ∧ ∀ h', r ≠ .stewardEstop h' d false) →
      p.emergencyStop = true ∨ .stewardEstop h d true ∈ l →
      (l.foldl (fun p r => if r.authorized st then r.edit p else p) p).emergencyStop = true
  | [], p, _, hp => by simpa using hp
  | r :: l, p, hl, hp => by
    rw [List.foldl_cons]
    refine stop_stays ha l _ (fun r' hr' => hl r' (List.mem_cons_of_mem _ hr')) ?_
    obtain ⟨hr, hne⟩ := hl r List.mem_cons_self
    have hkeep : p.emergencyStop = true → (if r.authorized st then r.edit p else p).emergencyStop = true := by
      intro hs
      split
      · rcases edit_keeps_stop hr hs with he | ⟨h', he⟩
        · exact he
        · exact absurd he (hne h')
      · exact hs
    rcases hp with hs | hm
    · exact .inl (hkeep hs)
    · rcases List.mem_cons.1 hm with rfl | hm
      · left
        rw [if_pos ha]
        rfl
      · exact .inr hm

/-- **A stop is lost**: `steward_social` reads the policy, `steward_estop` stores its stop, `steward_social` stores what
it read without the stop. -/
theorem steward_update_lost : ¬ ∀ (st : AppState) (w : World) (d : DogId) (reqs : List Request)
    (sched : List (Nat × DateTime)), (w.data.policies.current d).dogId = d → (∀ r ∈ reqs, r.stewards d) →
    ((Pool.start w (reqs.map (handle st)) : ApiPool).run (exec st) sched).Finished →
    Serial st d reqs w ((Pool.start w (reqs.map (handle st)) : ApiPool).run (exec st) sched).state := by
  intro h
  obtain ⟨order, hperm, hserial⟩ := h bench fresh ⟨1⟩
    [.stewardEstop (some "Steward s") ⟨1⟩ true, .stewardSocial (some "Steward s") ⟨1⟩ true]
    [(0, epoch 0), (1, epoch 0), (0, epoch 0), (1, epoch 0), (0, epoch 0), (0, epoch 0), (0, epoch 0), (1, epoch 0),
      (1, epoch 0)] rfl (by simp [Request.stewards]) (by decide)
  have hid : (order.map (fun r => (⟨r, fun _ => epoch 0⟩ : Arrival))).map (·.req) = order := by
    rw [List.map_map]
    exact List.map_id order
  have hs := hserial (epoch 0) _ hid
  have hmem : ∀ r ∈ order, r = .stewardEstop (some "Steward s") ⟨1⟩ true ∨
      r = .stewardSocial (some "Steward s") ⟨1⟩ true :=
    fun r hr => by simpa using hperm.mem_iff.1 hr
  have hst : ∀ r ∈ order, r.stewards ⟨1⟩ := fun r hr => by rcases hmem r hr with rfl | rfl <;> rfl
  rw [serveAll_current _ _ (by simpa using hst) rfl, hid] at hs
  have hstop := @stop_stays bench ⟨1⟩ (some "Steward s") (by decide) order
    (fresh.data.policies.current ⟨1⟩)
    (fun r hr => ⟨hst r hr, fun h' => by rcases hmem r hr with rfl | rfl <;> simp⟩)
    (.inr (hperm.mem_iff.2 List.mem_cons_self))
  rw [hs] at hstop
  exact absurd hstop (by decide)

end CanisLink
