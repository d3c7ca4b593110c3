import CanisLink.Effects
import Mathlib.Order.Monotone.Defs
/-!
# Server — requests handled one at a time

A run of device-api whose handlers do not overlap: each arrival is a request and the clock its calls read.  The policy
tick is an arrival like the others.
-/
namespace CanisLink

open Interleave (Prog Pool)

/-- A request and the clock: `clock n` is what its `n`-th call reads. -/
structure Arrival where
  req : Request
  clock : Nat → DateTime

/-- The world between two requests, and the instant the last one ended. -/
structure Server where
  world : World
  time : DateTime

namespace Server

variable (st : AppState)

def serve (s : Server) (a : Arrival) : Server where
  world := ((handle st a.req).eval (exec st) a.clock s.world).2
  time := a.clock ((handle st a.req).steps (exec st) a.clock s.world)

def serveAll (s : Server) (as : List Arrival) : Server := as.foldl (serve st) s

@[simp] theorem serveAll_nil (s : Server) : s.serveAll st [] = s := rfl
@[simp] theorem serveAll_cons (s : Server) (a : Arrival) (as : List Arrival) :
    s.serveAll st (a :: as) = (s.serve st a).serveAll st as := rfl
theorem serveAll_append (s : Server) (as bs : List Arrival) :
    s.serveAll st (as ++ bs) = (s.serveAll st as).serveAll st bs := List.foldl_append ..

/-- Every arrival meets a condition on the server it finds. -/
def Meets (Cond : Server → Arrival → Prop) : Server → List Arrival → Prop
  | _, [] => True
  | s, a :: as => Cond s a ∧ Meets Cond (s.serve st a) as

instance decidableMeets {Cond : Server → Arrival → Prop} [∀ s a, Decidable (Cond s a)] :
    ∀ (s : Server) (as : List Arrival), Decidable (s.Meets st Cond as)
  | _, [] => isTrue trivial
  | s, a :: as => @instDecidableAnd _ _ _ (decidableMeets (s.serve st a) as)

/-- The clock never goes back. -/
def OnTime (s : Server) (a : Arrival) : Prop := s.time ≤ a.clock 0 ∧ Monotone a.clock

variable {st}

theorem Meets.append {Cond : Server → Arrival → Prop} : ∀ {as bs : List Arrival} {s : Server},
    s.Meets st Cond (as ++ bs) → s.Meets st Cond as ∧ (s.serveAll st as).Meets st Cond bs
  | [], _, _, h => ⟨trivial, h⟩
  | _ :: _, _, _, h => ⟨⟨h.1, (Meets.append h.2).1⟩, (Meets.append h.2).2⟩

/-- **What each request keeps under its condition, a run keeps.** -/
theorem serveAll_inv {I : Server → Prop} {Cond : Server → Arrival → Prop}
    (hstep : ∀ s a, I s → Cond s a → I (s.serve st a)) :
    ∀ (as : List Arrival) (s : Server), I s → s.Meets st Cond as → I (s.serveAll st as)
  | [], _, h, _ => h
  | a :: as, s, h, hm => serveAll_inv hstep as (s.serve st a) (hstep s a h hm.1) hm.2

/-- **Every server a run reaches keeps `I` exactly if every arrival meets the condition under which a request does.** -/
theorem reaches_iff_meets {I : Server → Prop} {Cond : Server → Arrival → Prop}
    (hstep : ∀ s a, I s → (I (s.serve st a) ↔ Cond s a)) : ∀ (as : List Arrival) (s : Server), I s →
      ((∀ before, before <+: as → I (s.serveAll st before)) ↔ s.Meets st Cond as)
  | [], s, h => iff_of_true (fun before hb => by rw [List.prefix_nil.1 hb]; exact h) trivial
  | a :: as, s, h => by
    have hfirst : ∀ {P : List Arrival → Prop}, (∀ before, before <+: a :: as → P before) ↔
        P [] ∧ ∀ before, before <+: as → P (a :: before) := by
      intro P
      constructor
      · exact fun hp => ⟨hp [] (List.nil_prefix), fun before hb => hp _ (List.cons_prefix_cons.2 ⟨rfl, hb⟩)⟩
      · rintro ⟨hnil, hcons⟩ before hb
        rcases List.prefix_cons_iff.1 hb with rfl | ⟨before', rfl, hb'⟩
        · exact hnil
        · exact hcons before' hb'
    rw [hfirst]
    constructor
    · rintro ⟨-, hrest⟩
      have hserved : I (s.serve st a) := hrest [] List.nil_prefix
      exact ⟨(hstep s a h).1 hserved, (reaches_iff_meets hstep as _ hserved).1 hrest⟩
    · rintro ⟨hc, hm⟩
      exact ⟨h, (reaches_iff_meets hstep as _ ((hstep s a h).2 hc)).2 hm⟩

theorem serve_inv {I : World → Prop} {a : Arrival} (hI : ∀ c, a.req.makes c → ∀ t w, I w → I (exec st t c w).2)
    {s : Server} (h : I s.world) : I (s.serve st a).world :=
  Prog.All.eval (exec st) (I := I) hI (handle_makes st a.req) a.clock s.world h

theorem time_mono {s : Server} {a : Arrival} (h : s.OnTime a) : s.time ≤ (s.serve st a).time :=
  le_trans h.1 (h.2 (Nat.zero_le _))

theorem Meets.and {Cond Cond' : Server → Arrival → Prop} : ∀ {as : List Arrival} {s : Server}, s.Meets st Cond as →
    s.Meets st Cond' as → s.Meets st (fun s a => Cond s a ∧ Cond' s a) as
  | [], _, _, _ => trivial
  | _ :: _, _, h, h' => ⟨⟨h.1, h'.1⟩, Meets.and h.2 h'.2⟩

/-- Requests under a clock that stands still while each is handled. -/
def timed (rs : List (DateTime × Request)) : List Arrival := rs.map (fun r => ⟨r.2, fun _ => r.1⟩)

theorem timed_onTime : ∀ (rs : List (DateTime × Request)) (s : Server), (s.time :: rs.map (·.1)).IsChain (· ≤ ·) →
    s.Meets st OnTime (timed rs)
  | [], _, _ => trivial
  | r :: rs, s, h => by
    obtain ⟨hle, hrest⟩ := List.isChain_cons_cons.1 h
    exact ⟨⟨hle, fun _ _ _ => le_refl _⟩, timed_onTime rs _ hrest⟩

/-- Requests of a pool, handled one at a time in the pool's order. -/
theorem exists_run : ∀ (as : List Arrival) (s : Server) (p : ApiPool) (i : Nat), p.state = s.world →
    (∀ j a, as[j]? = some a → p.threads[i + j]? = some (handle st a.req)) →
    ∃ sched, (p.run (exec st) sched).state = (s.serveAll st as).world
  | [], _, _, _, hs, _ => ⟨[], hs⟩
  | a :: as, s, p, i, hs, hp => by
    obtain ⟨hstate, hthreads⟩ := @Pool.run_alone _ _ _ _ _ (exec st) i (handle st a.req) a.clock p (hp 0 a rfl)
    generalize (List.range ((handle st a.req).steps (exec st) a.clock p.state)).map (fun n => (i, a.clock n)) = sched₀
      at hstate hthreads
    obtain ⟨sched, h⟩ := exists_run as (s.serve st a) (p.run (exec st) sched₀) (i + 1) (by rw [hstate, hs]; rfl)
      (fun j a' hj => by
        rw [hthreads, List.getElem?_set_ne (by omega), Nat.add_right_comm]
        exact hp (j + 1) a' hj)
    exact ⟨sched₀ ++ sched, by rw [Pool.run_append, h]; rfl⟩

/-- **Requests handled one at a time are one of their interleavings.** -/
theorem serveAll_interleaved (s : Server) (as : List Arrival) : ∃ sched,
    ((Pool.start s.world (as.map (fun a => handle st a.req)) : ApiPool).run (exec st) sched).state =
      (s.serveAll st as).world :=
  exists_run as s _ 0 rfl (fun j a hj => by
    show (as.map (fun a => handle st a.req))[0 + j]? = _
    rw [Nat.zero_add, List.getElem?_map, hj]
    rfl)

theorem serve_consistent {s : Server} (a : Arrival) (h : s.world.Consistent) : (s.serve st a).world.Consistent :=
  serve_inv (I := World.Consistent) (fun _ hc t _ hw => exec_consistent st t (Request.makes_keepsParties hc) hw) h

theorem serveAll_consistent : ∀ (as : List Arrival) {s : Server}, s.world.Consistent →
    (s.serveAll st as).world.Consistent
  | [], _, h => h
  | a :: as, _, h => serveAll_consistent as (serve_consistent a h)

end Server

/-! ## A server to compute with -/

/-- Ids and instants printed in decimal. -/
def decimals : Formats where
  uuid u := String.ofList (Nat.toDigits 10 u)
  parseUuid s := some (Nat.ofDigitChars 10 s.toList 0)
  rfc3339 t := String.ofList (Nat.toDigits 10 (t.ns + 8334601228800000000000).toNat)
  parseRfc3339 s :=
    let ns : Int := (Nat.ofDigitChars 10 s.toList 0 : Nat) - 8334601228800000000000
    if h : -8334601228800000000000 ≤ ns ∧ ns < 8210266876800000000000 then some ⟨ns, h.1, h.2⟩ else none
  parseSqliteDatetime _ := none

theorem decimals_lawful : decimals.Lawful where
  parse_uuid u := by
    show some (Nat.ofDigitChars 10 (String.ofList (Nat.toDigits 10 u)).toList 0) = some u
    rw [String.toList_ofList, Nat.ofDigitChars_toDigits (by decide) (by decide)]
  parse_rfc3339 t _ := by
    show decimals.parseRfc3339 (decimals.rfc3339 t) = some t
    have hlo := t.lo
    have hhi := t.hi
    have hns : ((t.ns + 8334601228800000000000).toNat : Int) - 8334601228800000000000 = t.ns := by omega
    simp only [decimals, String.toList_ofList, @Nat.ofDigitChars_toDigits 10 _ (by decide) (by decide), hns]
    rw [dif_pos ⟨hlo, hhi⟩]

/-- A device-api with the secret `s` for the steward and the empty token for every device. -/
def bench : AppState where
  tokenFor _ _ := ""
  tokenHash s := s
  stewardSecret := "s"
  pool := true
  formats := decimals
  order := .stored

/-- `n` seconds after the epoch. -/
def epoch (n : UInt32) : DateTime := ⟨n.toNat * 1000000000, by omega, by have := n.toNat_lt; omega⟩

/-- Midday, outside the sleep window of the default policy. -/
def noon : DateTime := epoch 43200

/-- The tables of `001_init.sql`. -/
def allTables : List Table := [.dogs, .terminals, .bonds, .dogPolicy, .presence, .invites, .inviteEvents, .sessions]

theorem mem_allTables (t : Table) : t ∈ allTables := by cases t <;> decide

/-- The world of a first start on empty tables. -/
def fresh : World := { db := { tables := allTables } }

/-- The credentials of terminal `n`. -/
def device (n : Uuid) : HeaderMap := some ("Device " ++ decimals.uuid n ++ ":")

/-- The JSON body of dog `n` at terminal `n`. -/
def jsonBody (n : Uuid) : JsonBody := { dogId := decimals.uuid n, terminalId := decimals.uuid n }

/-- Dog `n` steps on the mat of terminal `n` at the instant `t`. -/
def stepOn (n : Uuid) (t : DateTime) : Request :=
  .postPresence (device n) { dogId := ⟨n⟩, terminalId := ⟨n⟩, present := true, confidence := 1, forceBand := .medium,
                             forceN := 1, tofMm := none, ts := t, seq := 1 }

/-- Dog `n` at terminal `n` calls dog `m`. -/
def callTo (n m : Uuid) : Request :=
  .createInvite (device n) { mode := .portal, toDog := some ⟨m⟩, dogId := ⟨n⟩, terminalId := ⟨n⟩ }

/-- The requests one after another, all at the instant `t`. -/
def serveAt (st : AppState) (t : DateTime) (w : World) (rs : List Request) : World :=
  (Server.serveAll st ⟨w, t⟩ (Server.timed (rs.map (fun r => (t, r))))).world

/-- Dog 1 has called dog 2: invite 0 rings. -/
def ringing : World :=
  serveAt bench noon fresh [.devBootstrapBond ⟨1⟩ ⟨2⟩ 1, stepOn 1 noon, stepOn 2 noon, callTo 1 2]

/-- Dogs 1 and 2 meet at noon. -/
def meeting : List (DateTime × Request) :=
  [.devBootstrapBond ⟨1⟩ ⟨2⟩ 1, stepOn 1 noon, stepOn 2 noon, callTo 1 2, .acceptInvite (device 2) 0 (jsonBody 2)].map
    (fun r => (noon, r))

/-- The session that begins when dog 2 accepts at noon. -/
def firstSession : SessionRecord where
  id := ⟨1⟩
  inviteId := ⟨0⟩
  dogA := ⟨1⟩
  dogB := ⟨2⟩
  mode := .portal
  state := .negotiating
  startedAt := noon
  maxEndAt := epoch 44100
  segmentDeadlineAt := epoch 43500

theorem ringing_consistent : ringing.Consistent :=
  Server.serveAll_consistent _ (consistent_empty _)

end CanisLink
