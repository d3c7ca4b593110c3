import CanisLink.Clients
import CanisLink.EdgeLink
import CanisLink.Replies
/-!
# Fleet — many terminals and one device-api

Every terminal runs its agent, one operation at a time; a request goes out, is handled by device-api call by call along
with everything else that is at work there, and its answer comes back.  Requests and answers may be lost, an agent may
be started anew while its request is still being handled, and other clients send what they like.
-/
namespace CanisLink

open Interleave (Prog Pool)

/-! ## The system -/

/-- The process of a terminal: between two operations, about to send a request, or waiting for request `j` to be
answered. -/
inductive Process
  | idle (a : EdgeAgent)
  | asks (r : Request) (k : r.Answer → Edge EdgeAgent)
  | waits (j : Nat) (r : Request) (k : r.Answer → Edge EdgeAgent)

namespace Process

/-- Where a program of the agent is. -/
def of : Edge EdgeAgent → Process
  | .done a => idle a
  | .call r k => asks r k

/-- An operation starts. -/
def started (F : Formats) (o : EdgeOp) : Process → Process
  | idle a => of (o.perform F a)
  | p => p

/-- The request has come in as request `j`. -/
def sent (j : Nat) : Process → Process
  | asks r k => waits j r k
  | p => p

/-- The request or its answer is lost. -/
def lost : Process → Process
  | asks _ k | waits _ _ k => of (k .failed)
  | p => p

/-- The answer comes back, if there is one. -/
def heard (server : ApiPool) : Process → Process
  | waits j r k =>
    match server.result j with
    | some reply => of (k (reply.answer r))
    | none => waits j r k
  | p => p

end Process

/-- device-api with the requests that have come in, the `j`-th of them at work as program `j`, and the terminals. -/
structure Fleet where
  server : ApiPool
  requests : List Request
  terminals : List (EdgeConfig × Process)

inductive FleetAction
  /-- another client's request comes in, or the policy tick -/
  | arrive (r : Request)
  /-- device-api makes the next call of request `j` -/
  | serve (j : Nat) (t : DateTime)
  | start (n : Nat) (o : EdgeOp)
  | send (n : Nat)
  /-- the request, or the answer it waits for, does not get through -/
  | lose (n : Nat)
  | hear (n : Nat)
  | boot (n : Nat)

namespace Fleet

variable (st : AppState)

def arrive (f : Fleet) (r : Request) : Fleet :=
  { f with server := f.server.spawn (handle st r), requests := f.requests ++ [r] }

/-- Something happens to the process of terminal `n`. -/
def turn (f : Fleet) (n : Nat) (g : Process → Process) : Fleet :=
  { f with terminals := f.terminals.modify n (fun p => (p.1, g p.2)) }

/-- The request that terminal `n` is about to send. -/
def request (f : Fleet) (n : Nat) : Option Request :=
  match f.terminals[n]? with
  | some (_, .asks r _) => some r
  | _ => none

def step (f : Fleet) : FleetAction → Fleet
  | .arrive r => f.arrive st r
  | .serve j t => { f with server := f.server.step (exec st) (j, t) }
  | .start n o => f.turn n (.started st.formats o)
  | .send n =>
    match f.request n with
    | some r => (f.arrive st r).turn n (.sent f.requests.length)
    | none => f
  | .lose n => f.turn n .lost
  | .hear n => f.turn n (.heard f.server)
  | .boot n => { f with terminals := f.terminals.modify n (fun p => (p.1, .idle (.new p.1))) }

def run (f : Fleet) (as : List FleetAction) : Fleet := as.foldl (step st) f

/-- New agents and a device-api that no request has reached. -/
def start (w : World) (cfgs : List EdgeConfig) : Fleet where
  server := Pool.start w []
  requests := []
  terminals := cfgs.map (fun cfg => (cfg, .idle (.new cfg)))

/-- The agent of a terminal between two operations. -/
def agent (f : Fleet) (n : Nat) : Option EdgeAgent :=
  match f.terminals[n]? with
  | some (_, .idle a) => some a
  | _ => none

theorem agent_eq_some {f : Fleet} {n : Nat} {a : EdgeAgent} :
    f.agent n = some a ↔ ∃ cfg, f.terminals[n]? = some (cfg, .idle a) := by
  unfold agent
  split
  · rename_i cfg b h
    rw [h]
    simp
  · rename_i h
    refine iff_of_false (by simp) ?_
    rintro ⟨cfg, hc⟩
    exact h cfg a hc

end Fleet

/-- The fleet after a run. -/
def fleet (st : AppState) (w : World) (cfgs : List EdgeConfig) (as : List FleetAction) : Fleet :=
  (Fleet.start w cfgs).run st as

/-- The terminal of dog 2. -/
def terminal2 : EdgeConfig := { terminalId := ⟨2⟩, dogId := ⟨2⟩, token := "" }

/-- Request `j` is handled at noon. -/
def handling (j : Nat) : List FleetAction := List.replicate 20 (.serve j noon)

/-! ## device-api in the fleet -/

section

variable {st : AppState} {w : World} {cfgs : List EdgeConfig}

theorem fleet_snoc (as : List FleetAction) (a : FleetAction) :
    fleet st w cfgs (as ++ [a]) = (fleet st w cfgs as).step st a := by
  unfold fleet Fleet.run
  rw [List.foldl_append]
  rfl

theorem reached_snoc_request (reqs : List Request) (r : Request) {sched : List (Nat × DateTime)}
    (h : ∀ l ∈ sched, l.1 < reqs.length) :
    reached st w (reqs ++ [r]) sched = (reached st w reqs sched).spawn (handle st r) := by
  unfold reached
  rw [List.map_append, List.map_singleton, Pool.start_append]
  refine Pool.run_spawn (exec st) _ (fun l hl => ?_)
  show l.1 < (reqs.map (handle st)).length
  rw [List.length_map]
  exact h l hl

/-- What an action does to device-api: nothing, a call is made, or a request comes in. -/
theorem step_server (st : AppState) (f : Fleet) (a : FleetAction) :
    ((f.step st a).server = f.server ∧ (f.step st a).requests = f.requests) ∨
    (∃ l, (f.step st a).server = f.server.step (exec st) l ∧ (f.step st a).requests = f.requests) ∨
    ∃ r, (f.step st a).server = f.server.spawn (handle st r) ∧ (f.step st a).requests = f.requests ++ [r] := by
  cases a with
  | arrive r => exact .inr (.inr ⟨r, rfl, rfl⟩)
  | serve j t => exact .inr (.inl ⟨(j, t), rfl, rfl⟩)
  | send n =>
    cases hr : f.request n with
    | none =>
      rw [show f.step st (.send n) = f by simp only [Fleet.step, hr]]
      exact .inl ⟨rfl, rfl⟩
    | some r =>
      rw [show f.step st (.send n) = (f.arrive st r).turn n (.sent f.requests.length) by simp only [Fleet.step, hr]]
      exact .inr (.inr ⟨r, rfl, rfl⟩)
  | _ => exact .inl ⟨rfl, rfl⟩

theorem step_made (st : AppState) (f : Fleet) (a : FleetAction) :
    (f.step st a).server.made = f.server.made ∨ ∃ l, (f.step st a).server.made = f.server.made ++ [l] := by
  rcases step_server st f a with ⟨hs, -⟩ | ⟨l, hs, -⟩ | ⟨r, hs, -⟩
  · exact .inl (by rw [hs])
  · rw [hs]
    exact (Pool.made_step (exec st) f.server l).imp (fun h => by rw [h]) (fun h => ⟨l, h⟩)
  · exact .inl (by rw [hs]; rfl)

/-- **What an action does to a terminal**: it keeps its configuration, and its process takes at most one turn. -/
theorem step_terminal (st : AppState) (f : Fleet) (a : FleetAction) {n : Nat} {cfg : EdgeConfig} {p' : Process}
    (h : (f.step st a).terminals[n]? = some (cfg, p')) : ∃ p, f.terminals[n]? = some (cfg, p) ∧ (p' = p ∨
      (∃ o, a = .start n o ∧ p' = p.started st.formats o) ∨ (a = .send n ∧ p' = p.sent f.requests.length) ∨
      (a = .lose n ∧ p' = p.lost) ∨ (a = .hear n ∧ p' = p.heard f.server) ∨ (a = .boot n ∧ p' = .idle (.new cfg))) := by
  -- a turn of terminal `m`
  have turned : ∀ {m : Nat} {g : EdgeConfig → Process → Process},
      (f.terminals.modify m (fun p => (p.1, g p.1 p.2)))[n]? = some (cfg, p') →
      ∃ p, f.terminals[n]? = some (cfg, p) ∧ (p' = p ∨ (m = n ∧ p' = g cfg p)) := by
    intro m g hg
    rw [List.getElem?_modify] at hg
    obtain ⟨⟨cfg', p⟩, hp, heq⟩ := Option.map_eq_some_iff.1 hg
    by_cases hm : m = n
    · rw [if_pos hm] at heq
      obtain ⟨rfl, rfl⟩ := Prod.mk.inj heq
      exact ⟨p, hp, .inr ⟨hm, rfl⟩⟩
    · rw [if_neg hm] at heq
      obtain ⟨rfl, rfl⟩ := Prod.mk.inj heq
      exact ⟨p, hp, .inl rfl⟩
  cases a with
  | arrive r => exact ⟨p', h, .inl rfl⟩
  | serve j t => exact ⟨p', h, .inl rfl⟩
  | start m o =>
    obtain ⟨p, hp, hkept | ⟨rfl, ho⟩⟩ := turned (g := fun _ => .started st.formats o) h
    · exact ⟨p, hp, .inl hkept⟩
    · exact ⟨p, hp, .inr (.inl ⟨o, rfl, ho⟩)⟩
  | send m =>
    simp only [Fleet.step] at h
    split at h
    · obtain ⟨p, hp, hkept | ⟨rfl, hsent⟩⟩ := turned (g := fun _ => .sent f.requests.length) h
      · exact ⟨p, hp, .inl hkept⟩
      · exact ⟨p, hp, .inr (.inr (.inl ⟨rfl, hsent⟩))⟩
    · exact ⟨p', h, .inl rfl⟩
  | lose m =>
    obtain ⟨p, hp, hkept | ⟨rfl, hlost⟩⟩ := turned (g := fun _ => .lost) h
    · exact ⟨p, hp, .inl hkept⟩
    · exact ⟨p, hp, .inr (.inr (.inr (.inl ⟨rfl, hlost⟩)))⟩
  | hear m =>
    obtain ⟨p, hp, hkept | ⟨rfl, hheard⟩⟩ := turned (g := fun _ => .heard f.server) h
    · exact ⟨p, hp, .inl hkept⟩
    · exact ⟨p, hp, .inr (.inr (.inr (.inr (.inl ⟨rfl, hheard⟩))))⟩
  | boot m =>
    obtain ⟨p, hp, hkept | ⟨rfl, hnew⟩⟩ := turned (g := fun cfg _ => .idle (.new cfg)) h
    · exact ⟨p, hp, .inl hkept⟩
    · exact ⟨p, hp, .inr (.inr (.inr (.inr (.inr ⟨rfl, hnew⟩))))⟩

/-- device-api in a fleet: the requests that have come in, after the calls that were made. -/
def Served (st : AppState) (w : World) (f : Fleet) : Prop := f.server = reached st w f.requests f.server.made

/-- Every call was made for a request that had come in. -/
theorem Served.known {f : Fleet} (h : Served st w f) : ∀ l ∈ f.server.made, l.1 < f.requests.length := by
  intro l hl
  obtain ⟨e, he, rfl⟩ := List.mem_map.1 hl
  rw [h] at he
  have := Pool.tid_lt (exec st) f.server.made (Pool.start w (f.requests.map (handle st)) : ApiPool)
    (fun _ h => by cases h) e he
  rw [show (Pool.start w (f.requests.map (handle st)) : ApiPool).threads.length = f.requests.length from
    List.length_map _] at this
  exact this

theorem Served.step {f : Fleet} (h : Served st w f) (a : FleetAction) : Served st w (f.step st a) := by
  unfold Served
  rcases step_server st f a with ⟨hs, hr⟩ | ⟨l, hs, hr⟩ | ⟨r, hs, hr⟩
  · rw [hs, hr]
    exact h
  · rw [hs, hr]
    rcases Pool.made_step (exec st) f.server l with hsame | hmade
    · rw [hsame]
      exact h
    · rw [hmade]
      unfold Served reached at *
      rw [Pool.run_snoc, ← h]
  · rw [hs, hr]
    show f.server.spawn _ = reached st w (f.requests ++ [r]) f.server.made
    rw [reached_snoc_request f.requests r h.known]
    exact congrArg (Pool.spawn · _) h

theorem served (as : List FleetAction) : Served st w (fleet st w cfgs as) := by
  induction as using List.reverseRecOn with
  | nil => rfl
  | append_singleton as a ih =>
    rw [fleet_snoc]
    exact ih.step a

theorem reached_state_step (f : Fleet) (hserved : Served st w f) (a : FleetAction) {before : List (Nat × DateTime)}
    (h : before <+: f.server.made) :
    (reached st w (f.step st a).requests before).state = (reached st w f.requests before).state := by
  rcases step_server st f a with ⟨-, hr⟩ | ⟨l, -, hr⟩ | ⟨r, -, hr⟩
  · rw [hr]
  · rw [hr]
  · rw [hr, reached_snoc_request]
    · rfl
    · exact fun l hl => hserved.known l (h.subset hl)

/-- **Every moment of the run of the requests was a moment of the fleet.** -/
theorem moment (as : List FleetAction) : ∀ before, before <+: (fleet st w cfgs as).server.made →
    ∃ earlier, earlier <+: as ∧ (fleet st w cfgs earlier).server.state =
      (reached st w (fleet st w cfgs as).requests before).state := by
  induction as using List.reverseRecOn with
  | nil =>
    intro before h
    rw [List.prefix_nil.1 h]
    exact ⟨[], List.prefix_refl _, rfl⟩
  | append_singleton as a ih =>
    have hserved : Served st w (fleet st w cfgs as) := served as
    have hnow : ∃ earlier, earlier <+: as ++ [a] ∧ (fleet st w cfgs earlier).server.state =
        (reached st w (fleet st w cfgs (as ++ [a])).requests (fleet st w cfgs (as ++ [a])).server.made).state :=
      ⟨as ++ [a], List.prefix_refl _, congrArg Pool.state (served (as ++ [a]))⟩
    intro before h
    by_cases hlast : before = (fleet st w cfgs (as ++ [a])).server.made
    · rw [hlast]
      exact hnow
    · rw [fleet_snoc] at h hlast ⊢
      have hold : before <+: (fleet st w cfgs as).server.made := by
        rcases step_made st (fleet st w cfgs as) a with hmade | ⟨l, hmade⟩
        · rw [← hmade]
          exact h
        · rw [hmade] at h hlast
          exact (List.prefix_concat_iff.1 h).resolve_left hlast
      obtain ⟨earlier, hle, hstate⟩ := ih before hold
      exact ⟨earlier, hle.trans (List.prefix_append _ _),
        hstate.trans (reached_state_step _ hserved a hold).symm⟩

/-- **And every moment of the fleet is one of that run.** -/
theorem moment_of (as : List FleetAction) : ∀ earlier, earlier <+: as →
    ∃ before, before <+: (fleet st w cfgs as).server.made ∧
      (reached st w (fleet st w cfgs as).requests before).state = (fleet st w cfgs earlier).server.state := by
  induction as using List.reverseRecOn with
  | nil =>
    intro earlier h
    rw [List.prefix_nil.1 h]
    exact ⟨[], List.prefix_refl _, rfl⟩
  | append_singleton as a ih =>
    intro earlier h
    rcases List.prefix_concat_iff.1 h with rfl | hold
    · exact ⟨_, List.prefix_refl _, (congrArg Pool.state (served (as ++ [a]))).symm⟩
    · obtain ⟨before, hle, hstate⟩ := ih earlier hold
      rw [fleet_snoc]
      refine ⟨before, hle.trans ?_, (reached_state_step _ (served as) a hle).trans hstate⟩
      rcases step_made st (fleet st w cfgs as) a with hmade | ⟨l, hmade⟩
      · rw [hmade]
      · rw [hmade]
        exact List.prefix_append _ _

end

/-! ## What the agents may be told -/

/-- The sessions and the invites that have been in the stores. -/
structure Known where
  sessions : Set SessionRecord
  invites : Set Invite

instance : Preorder Known where
  le k k' := k.sessions ⊆ k'.sessions ∧ k.invites ⊆ k'.invites
  le_refl _ := ⟨fun _ h => h, fun _ h => h⟩
  le_trans _ _ _ h h' := ⟨fun _ hx => h'.1 (h.1 hx), fun _ hi => h'.2 (h.2 hi)⟩

/-- What has been in the stores of device-api at some moment of the fleet. -/
def seen (st : AppState) (w : World) (cfgs : List EdgeConfig) (as : List FleetAction) : Known where
  sessions := {x | ∃ earlier, earlier <+: as ∧ (fleet st w cfgs earlier).server.state.data.sessions.get x.id = some x}
  invites := {inv | ∃ earlier, earlier <+: as ∧
    (fleet st w cfgs earlier).server.state.data.invites.get inv.id = some inv}

/-- What the fleet has seen is what the run of its requests has. -/
theorem seen_eq (st : AppState) (w : World) (cfgs : List EdgeConfig) (as : List FleetAction) :
    seen st w cfgs as = {
      sessions := held st w (fleet st w cfgs as).requests (fleet st w cfgs as).server.made
      invites := rung st w (fleet st w cfgs as).requests (fleet st w cfgs as).server.made } := by
  have hmoments : ∀ P : World → Prop,
      (∃ earlier, earlier <+: as ∧ P (fleet st w cfgs earlier).server.state) ↔
      ∃ before, before <+: (fleet st w cfgs as).server.made ∧
        P (reached st w (fleet st w cfgs as).requests before).state := by
    intro P
    constructor
    · rintro ⟨earlier, hle, hP⟩
      obtain ⟨before, hle', hstate⟩ := moment_of as earlier hle
      exact ⟨before, hle', hstate ▸ hP⟩
    · rintro ⟨before, hle, hP⟩
      obtain ⟨earlier, hle', hstate⟩ := moment as before hle
      exact ⟨earlier, hle', hstate ▸ hP⟩
  refine congrArg₂ Known.mk (Set.ext fun x => ?_) (Set.ext fun inv => ?_)
  · exact hmoments (fun w => w.data.sessions.get x.id = some x)
  · exact hmoments (fun w => w.data.invites.get inv.id = some inv)

theorem seen_mono {st : AppState} {w : World} {cfgs : List EdgeConfig} {as bs : List FleetAction} (h : as <+: bs) :
    seen st w cfgs as ≤ seen st w cfgs bs :=
  ⟨fun _ ⟨earlier, hle, hx⟩ => ⟨earlier, hle.trans h, hx⟩, fun _ ⟨earlier, hle, hi⟩ => ⟨earlier, hle.trans h, hi⟩⟩

/-- What the answer to a request may say of sessions and invites. -/
def Honest (st : AppState) (k : Known) : (r : Request) → r.Answer → Prop
  | .incomingInvite _ q, .answered _ (some (some o)) => o.1 ∈ k.invites ∧ o.1.toDog = q.dogId
  | .acceptInvite _ _ b, .answered _ (some a) =>
    a.1 ∈ k.sessions ∧ ∃ dog, (b.names st).map (·.2) = some dog ∧ a.1.hasDog dog
  | .activeSession _ q, .answered _ (some (some x)) => x ∈ k.sessions ∧ x.hasDog q.dogId
  | .mediaReady _ n b, .answered _ (some body) => ∀ x, body.session = some (some x) → x ∈ k.sessions ∧ x.id = ⟨n⟩ ∧
      (body.bothReady = true → x.state = .active) ∧ ∃ dog, (b.names st).map (·.2) = some dog ∧ x.hasDog dog
  | .again _ n b, .answered _ (some body) => ∀ x, body.session = some (some x) → x ∈ k.sessions ∧ x.id = ⟨n⟩ ∧
      ∃ dog, (b.names st).map (·.2) = some dog ∧ x.hasDog dog
  | _, _ => True

theorem Shown.honest {st : AppState} {k : Known} {r : Request} {reply : Reply}
    (h : Shown st k.sessions k.invites r reply) :
    Honest st k r (reply.answer r) := by
  cases r with
  | incomingInvite hd q =>
    cases reply with
    | offer o => cases o <;> exact h
    | _ => trivial
  | acceptInvite hd n b =>
    cases reply with
    | accepted x role => exact h
    | _ => trivial
  | activeSession hd q =>
    cases reply with
    | active x => cases x <;> exact h
    | _ => trivial
  | mediaReady hd n b =>
    cases reply with
    | media both x =>
      rintro y hy
      obtain rfl := Option.some.inj (Option.some.inj hy)
      exact h
    | _ => trivial
  | again hd n b =>
    cases reply with
    | extended x =>
      rintro y hy
      obtain rfl := Option.some.inj (Option.some.inj hy)
      exact h
    | _ => trivial
  | _ => trivial

end CanisLink
