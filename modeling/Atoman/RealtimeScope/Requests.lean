import Atoman.RealtimeScope.Sessions
import Mathlib.Data.UInt

/-!
# Requests are answered once

Every request that passes the check at the entry has a number. It is in the ring, in
`manage`, or with a call that found no room, until it is answered.
-/

namespace Atoman.RealtimeScope
open Comm (Packet)
open Lib (Memory ringSlots)

/-- The request that `manage` works on. -/
def Stage.requests : Stage → List Control
  | .serving _ request _ => [request]
  | _ => []

/-- How many requests the run of `manage` still looks at. -/
def Stage.budget : Stage → ℕ
  | .idle => 0
  | .looping i => requestDepth - i
  | .serving i _ _ => requestDepth - i
  | _ => requestDepth

/-- The reply goes back where the request came from. -/
structure Addressed (request reply : Control) : Prop where
  p_output : reply.p_output = request.p_output
  packet : reply.packet = { request.packet with
    src := request.packet.dst
    d_src := request.packet.d_dst
    dst := request.packet.src
    d_dst := request.packet.d_src
    is_ack := 1
    len := reply.packet.len }

theorem addressed_finish (request : Control) (status : UInt8) (p_data : List UInt8) :
    Addressed request (finish request status p_data) := ⟨rfl, rfl⟩

/-- What holds of the reply that `manage` is about to send. -/
def Stage.Sound : Stage → Prop
  | .serving i request (.send reply) => i < requestDepth ∧ Addressed request reply
  | .serving i _ _ => i < requestDepth
  | _ => True

namespace Service
variable {s s' : Service}

/-- The requests that were queued and are answered. -/
def served (s : Service) : List Control :=
  (s.sent.filter fun reply => reply.queued).map fun reply => reply.request

/-- The requests that are not answered yet. -/
def pending (s : Service) : List Control := s.stage.requests ++ s.ring ++ s.refused

/-- What holds of the requests between the steps. -/
structure RequestSound (s : Service) : Prop where
  request_head_lt : s.request_head < requestDepth
  request_count_le : s.request_count ≤ requestDepth
  accepted : s.accepted = s.served ++ s.stage.requests ++ s.ring
  /-- every number stands for one request that is answered or waits -/
  once : (s.sent.map (fun reply => reply.request.serial) ++ s.pending.map Control.serial).Perm
    (List.range s.arrived)
  sorted : (s.accepted.map Control.serial).Pairwise (· < ·)
  arrived : ∀ request ∈ s.accepted, request.serial < s.arrived
  answers : ∀ reply ∈ s.sent, Addressed reply.request reply.reply ∧
    (reply.queued = false → reply.reply.data 3 = 7)
  stage : s.stage.Sound
  begun_le : s.begun ≤ s.accepted.length
  begun : s.begun ≤ s.served.length + s.stage.budget

theorem RequestSound.same (h : s.RequestSound) (hrequests : s'.requests = s.requests)
    (hhead : s'.request_head = s.request_head) (hcount : s'.request_count = s.request_count)
    (hstage : s'.stage = s.stage) (hrefused : s'.refused = s.refused)
    (harrived : s'.arrived = s.arrived) (haccepted : s'.accepted = s.accepted)
    (hbegun : s'.begun = s.begun) (hsent : s'.sent = s.sent) : s'.RequestSound := by
  have hserved : s'.served = s.served := by
    unfold served
    rw [hsent]
  have hring : s'.ring = s.ring := by
    unfold ring
    rw [hrequests, hhead, hcount]
  have hpending : s'.pending = s.pending := by
    unfold pending
    rw [hstage, hring, hrefused]
  constructor
  · rw [hhead]
    exact h.request_head_lt
  · rw [hcount]
    exact h.request_count_le
  · rw [haccepted, hserved, hstage, hring]
    exact h.accepted
  · rw [hsent, hpending, harrived]
    exact h.once
  · rw [haccepted]
    exact h.sorted
  · rw [haccepted, harrived]
    exact h.arrived
  · rw [hsent]
    exact h.answers
  · rw [hstage]
    exact h.stage
  · rw [hbegun, haccepted]
    exact h.begun_le
  · rw [hbegun, hserved, hstage]
    exact h.begun

/-- `manage` goes on with the same request. -/
theorem RequestSound.setStage (h : s.RequestSound) (stage : Stage) (hsound : stage.Sound)
    (hrequests : stage.requests = s.stage.requests) (hbudget : s.stage.budget ≤ stage.budget)
    (hs' : s' = { s' with
      requests := s.requests
      request_head := s.request_head
      request_count := s.request_count
      stage := stage
      refused := s.refused
      arrived := s.arrived
      accepted := s.accepted
      begun := s.begun
      sent := s.sent }) : s'.RequestSound := by
  rw [hs']
  refine ⟨h.request_head_lt, h.request_count_le, ?_, ?_, h.sorted, h.arrived, h.answers, hsound,
    h.begun_le, Nat.le_trans h.begun (Nat.add_le_add_left hbudget _)⟩
  · rw [hrequests]
    exact h.accepted
  · have honce := h.once
    unfold pending at honce ⊢
    rw [hrequests]
    exact honce

/-! ## New requests -/

/-- A new item at the end of a part of a list. -/
theorem perm_insert {α : Type*} (xs ys zs : List α) (x : α) :
    (xs ++ (ys ++ [x] ++ zs)).Perm (xs ++ (ys ++ zs) ++ [x]) := by
  rw [List.append_assoc, List.append_assoc, List.append_assoc]
  exact (List.perm_append_comm.append_left ys).append_left xs

/-- The number of a new request. -/
theorem RequestSound.arrive (h : s.RequestSound) {pending : List ℕ}
    (hpending : (s.sent.map (fun reply => reply.request.serial) ++ pending).Perm
      (s.sent.map (fun reply => reply.request.serial) ++ s.pending.map Control.serial ++
        [s.arrived])) :
    (s.sent.map (fun reply => reply.request.serial) ++ pending).Perm
      (List.range (s.arrived + 1)) := by
  rw [List.range_succ]
  exact hpending.trans (h.once.append_right _)

theorem RequestSound.controlRequest (h : s.RequestSound)
    (p_request : Option (Packet × Option (Memory UInt8))) (my_printf : ℕ) :
    (s.controlRequest p_request my_printf).RequestSound := by
  unfold Service.controlRequest
  split
  case h_2 => exact h
  case h_1 packet p_data =>
  split
  · exact h
  dsimp only
  have harrived (request : Control) (hin : request ∈ s.accepted) : request.serial < s.arrived + 1 :=
    Nat.lt_succ_of_lt (h.arrived request hin)
  split
  · next hroom =>
    set request : Control := ⟨packet, my_printf,
      Memory.write (fun _ => 0) 0 (p_data.slice 0 packet.len.toNat), s.arrived⟩
    have hring : (ringSlots requestDepth s.request_head (s.request_count + 1)).map
        (Function.update s.requests ((s.request_head + s.request_count) % requestDepth) request) =
          s.ring ++ [request] := by
      rw [Lib.ringSlots_concat, List.map_append, List.map_singleton, Function.update_self]
      refine congrArg (· ++ _) (List.map_congr_left fun r hr => Function.update_of_ne ?_ _ _)
      rintro rfl
      exact Lib.next_notMem_ringSlots hroom.2 hr
    refine ⟨h.request_head_lt, hroom.2, ?_, h.arrive ?_, ?_, fun other hin => ?_,
      h.answers, h.stage, ?_, h.begun⟩
    · show s.accepted ++ [request] = s.served ++ s.stage.requests ++
        (ringSlots requestDepth s.request_head (s.request_count + 1)).map _
      rw [hring, h.accepted, List.append_assoc]
    · show (_ ++ (s.stage.requests ++ (ringSlots requestDepth s.request_head
        (s.request_count + 1)).map _ ++ s.refused).map Control.serial).Perm _
      rw [hring, ← List.append_assoc]
      unfold pending
      simp only [List.map_append]
      exact perm_insert _ _ _ _
    · dsimp only
      rw [List.map_append, List.pairwise_append]
      refine ⟨h.sorted, List.pairwise_singleton _ _, fun a ha b hb => ?_⟩
      obtain ⟨other, hin, rfl⟩ := List.mem_map.mp ha
      rw [List.map_singleton, List.mem_singleton] at hb
      rw [hb]
      exact h.arrived other hin
    · rcases List.mem_append.mp hin with hin | hin
      · exact harrived other hin
      · rw [List.mem_singleton.mp hin]
        exact Nat.lt_succ_self _
    · dsimp only
      rw [List.length_append]
      exact Nat.le_add_right_of_le h.begun_le
  · refine ⟨h.request_head_lt, h.request_count_le, h.accepted, h.arrive ?_, h.sorted,
      harrived, h.answers, h.stage, h.begun_le, h.begun⟩
    show (_ ++ (s.stage.requests ++ s.ring ++ (s.refused ++ [_])).map Control.serial).Perm _
    unfold pending
    rw [← List.append_assoc, List.map_append, ← List.append_assoc]
    exact List.Perm.refl _

/-- **No room**: the call that found none answers. -/
theorem RequestSound.refuse (h : s.RequestSound) : s.refuse.RequestSound := by
  unfold Service.refuse
  split
  · exact h
  next request refused hrefused =>
  have hserved : served { s with
      refused := refused
      sent := s.sent ++ [⟨request, finish request 7 [], false⟩] } = s.served := by
    unfold served
    rw [List.filter_append]
    exact congrArg _ (List.append_nil _)
  refine ⟨h.request_head_lt, h.request_count_le, ?_, ?_, h.sorted, h.arrived,
    fun reply hin => ?_, h.stage, h.begun_le, ?_⟩
  · rw [hserved]
    exact h.accepted
  · have honce := h.once
    unfold pending at honce ⊢
    rw [hrefused, List.map_append, List.map_cons] at honce
    refine List.Perm.trans ?_ honce
    show (((s.sent ++ [(⟨request, finish request 7 [], false⟩ : Reply)]).map fun reply =>
      reply.request.serial) ++ (s.stage.requests ++ s.ring ++ refused).map Control.serial).Perm _
    rw [List.map_append, List.map_append, List.map_singleton, List.append_assoc,
      List.singleton_append]
    exact List.perm_middle.symm.append_left _
  · rcases List.mem_append.mp hin with hin | hin
    · exact h.answers reply hin
    · rw [List.mem_singleton.mp hin]
      exact ⟨addressed_finish request 7 [], fun _ => rfl⟩
  · rw [hserved]
    exact h.begun

/-! ## The task -/

/-- Whatever `process` does first, the requests stay as they are, and a reply goes back to
the requester. -/
theorem process_requests (s : Service) (answer : Answer) (request : Control) :
    (s.process answer request).1 = { (s.process answer request).1 with
      requests := s.requests
      request_head := s.request_head
      request_count := s.request_count
      refused := s.refused
      arrived := s.arrived
      accepted := s.accepted
      begun := s.begun
      sent := s.sent } ∧
    ∀ reply, (s.process answer request).2 = .send reply → Addressed request reply := by
  have hsend {reply reply' : Control} (h : Addressed request reply)
      (heq : Part.send reply = .send reply') : Addressed request reply' := Part.send.inj heq ▸ h
  have hfinish (status : UInt8) (p_data : List UInt8) := addressed_finish request status p_data
  unfold Service.process
  split
  · exact ⟨rfl, fun _ => hsend (hfinish _ _)⟩
  dsimp only
  split
  · exact ⟨rfl, fun _ => hsend (hfinish _ _)⟩
  · refine ⟨?_, fun _ heq => nomatch heq⟩
    unfold Service.relink
    split
    · rfl
    · split <;> rfl
  · exact ⟨rfl, fun _ => hsend (hfinish _ _)⟩
  · split
    · exact ⟨rfl, fun _ => hsend (hfinish _ _)⟩
    · refine ⟨rfl, fun _ => hsend ?_⟩
      unfold Service.setChannel
      dsimp only
      split
      · exact hfinish _ _
      · split
        · exact hfinish _ _
        · exact hfinish _ _
  · split
    · exact ⟨rfl, fun _ => hsend (hfinish _ _)⟩
    · exact ⟨rfl, fun _ => hsend (hfinish _ _)⟩
  · split
    · exact ⟨rfl, fun _ => hsend (hfinish _ _)⟩
    split
    · exact ⟨rfl, fun _ => hsend (hfinish _ _)⟩
    split
    · exact ⟨rfl, fun _ => hsend (hfinish _ _)⟩
    · exact ⟨rfl, fun _ heq => nomatch heq⟩
  · exact ⟨rfl, fun _ => hsend (hfinish _ _)⟩
  · exact ⟨rfl, fun _ => hsend (hfinish _ _)⟩

/-- The reply is sent. -/
theorem RequestSound.send (h : s.RequestSound) {i : ℕ} {request reply : Control}
    (hstage : s.stage = .serving i request (.send reply)) : RequestSound { s with
      sent := s.sent ++ [⟨request, reply, true⟩], stage := .looping (i + 1) } := by
  obtain ⟨hi, haddressed⟩ : i < requestDepth ∧ Addressed request reply := by
    have hsound := h.stage
    rwa [hstage] at hsound
  have hrequests : s.stage.requests = [request] := by rw [hstage]; rfl
  have hserved : served { s with
      sent := s.sent ++ [⟨request, reply, true⟩], stage := .looping (i + 1) } =
        s.served ++ [request] := by
    unfold served
    rw [List.filter_append, List.map_append]
    rfl
  have haccepted := h.accepted
  rw [hrequests] at haccepted
  have hbegun := h.begun
  rw [hstage] at hbegun
  refine ⟨h.request_head_lt, h.request_count_le, ?_, ?_, h.sorted, h.arrived,
    fun other hin => ?_, trivial, h.begun_le, ?_⟩
  · rw [hserved]
    show s.accepted = s.served ++ [request] ++ [] ++ s.ring
    rw [List.append_nil]
    exact haccepted
  · have honce := h.once
    unfold pending at honce ⊢
    rw [hrequests] at honce
    show (((s.sent ++ [(⟨request, reply, true⟩ : Reply)]).map fun reply => reply.request.serial) ++
      ([] ++ s.ring ++ s.refused).map Control.serial).Perm _
    rw [List.map_append, List.append_assoc]
    exact honce
  · rcases List.mem_append.mp hin with hin | hin
    · exact h.answers other hin
    · rw [List.mem_singleton.mp hin]
      exact ⟨haddressed, nofun⟩
  · rw [hserved, List.length_append, List.length_singleton]
    show s.begun ≤ s.served.length + 1 + (requestDepth - (i + 1))
    have hle : s.begun ≤ s.served.length + (requestDepth - i) := hbegun
    omega

/-- A request is taken from the ring, or the run of `manage` ends. -/
theorem RequestSound.round (h : s.RequestSound) {i : ℕ} (hstage : s.stage = .looping i)
    (answer : Answer) : (s.manage answer).RequestSound := by
  have haccepted := h.accepted
  have hbegun := h.begun
  have honce := h.once
  unfold pending at honce
  rw [hstage] at haccepted hbegun honce
  unfold Service.manage
  rw [hstage]
  dsimp only
  split
  · next hend =>
    refine ⟨h.request_head_lt, h.request_count_le, haccepted, honce, h.sorted, h.arrived,
      h.answers, trivial, h.begun_le, ?_⟩
    show s.begun ≤ s.served.length + 0
    rcases hend with hdone | hempty
    · have hle : s.begun ≤ s.served.length + (requestDepth - i) := hbegun
      omega
    · have hle := h.begun_le
      have hring : s.ring = [] := by
        unfold ring
        rw [hempty]
        rfl
      rw [haccepted, hring, List.append_nil] at hle
      exact Nat.le_trans hle (Nat.le_of_eq (congrArg List.length (List.append_nil _)))
  · next hgo =>
    rw [not_or] at hgo
    obtain ⟨n, hn⟩ := Nat.exists_eq_succ_of_ne_zero hgo.2
    have hring : s.ring = s.requests s.request_head ::
        (ringSlots requestDepth ((s.request_head + 1) % requestDepth) n).map s.requests := by
      unfold ring
      rw [hn, Lib.ringSlots_succ, List.map_cons, Nat.mod_eq_of_lt h.request_head_lt]
    have hcount := h.request_count_le
    have hlt : s.request_count - 1 = n := by omega
    rw [hring] at haccepted honce
    rw [hlt]
    refine ⟨Nat.mod_lt _ (by decide), by dsimp only; omega, ?_, ?_, h.sorted, h.arrived, h.answers,
      Nat.lt_of_not_le hgo.1, h.begun_le, hbegun⟩
    · show s.accepted = s.served ++ [_] ++ _
      rw [haccepted, List.append_assoc, List.append_assoc]
      rfl
    · exact honce

theorem RequestSound.serve (h : s.RequestSound) {i : ℕ} {request : Control} {part : Part}
    (hstage : s.stage = .serving i request part) (answer : Answer) :
    (s.serve answer i request part).RequestSound := by
  have hsound := h.stage
  have hgo (stage : Stage) (hnext : stage.Sound) (hreq : stage.requests = [request])
      (hbudget : stage.budget = requestDepth - i) {s' : Service} (hs' : s' = { s' with
        requests := s.requests
        request_head := s.request_head
        request_count := s.request_count
        stage := stage
        refused := s.refused
        arrived := s.arrived
        accepted := s.accepted
        begun := s.begun
        sent := s.sent }) : s'.RequestSound :=
    h.setStage stage hnext (by rw [hreq, hstage]; rfl)
      (by rw [hbudget, hstage]; exact Nat.le_refl _) hs'
  rw [hstage] at hsound
  unfold Service.serve
  cases part with
  | begin =>
    obtain ⟨hsame, haddressed⟩ := process_requests s answer request
    dsimp only
    generalize s.process answer request = next at hsame haddressed ⊢
    refine hgo (.serving i request next.2) ?_ rfl rfl (by rw [hsame])
    cases hpart : next.2 with
    | send reply => exact ⟨hsound, haddressed reply hpart⟩
    | begin | stop | ask | renew _ | start _ => exact hsound
  | stop => exact hgo (.serving i request .ask) hsound rfl rfl rfl
  | ask => exact hgo (.serving i request (.renew s.session)) hsound rfl rfl rfl
  | renew session =>
    exact hgo (.serving i request (.send (finish request 0 [])))
      ⟨hsound, addressed_finish _ _ _⟩ rfl rfl rfl
  | start frequency =>
    dsimp only
    split
    · exact hgo (.serving i request (.send (finish request 0 (Lib.u32Le frequency))))
        ⟨hsound, addressed_finish _ _ _⟩ rfl rfl rfl
    · exact hgo (.serving i request (.send (finish request 3 [])))
        ⟨hsound, addressed_finish _ _ _⟩ rfl rfl rfl
  | send reply => exact h.send hstage

theorem length_ring (s : Service) : s.ring.length = s.request_count := by
  unfold ring
  rw [List.length_map, Lib.length_ringSlots]

theorem RequestSound.manage (h : s.RequestSound) (answer : Answer) :
    (s.manage answer).RequestSound := by
  cases hcase : s.stage with
  | looping i => exact h.round hcase answer
  | serving i request part =>
    have hserve := h.serve hcase answer
    unfold Service.manage
    rw [hcase]
    exact hserve
  | idle =>
    unfold Service.manage
    rw [hcase]
    dsimp only
    split
    · exact h
    have haccepted := h.accepted
    have honce := h.once
    unfold pending at honce
    rw [hcase] at haccepted honce
    refine ⟨h.request_head_lt, h.request_count_le, haccepted, honce, h.sorted, h.arrived, h.answers,
      trivial, Nat.le_refl _, ?_⟩
    show s.accepted.length ≤ s.served.length + requestDepth
    rw [haccepted, List.length_append, List.length_append, length_ring]
    exact Nat.add_le_add_left h.request_count_le _
  | asked session =>
    unfold Service.manage
    rw [hcase]
    have hbudget {stage : Stage} (heq : stage.budget = requestDepth) :
        s.stage.budget ≤ stage.budget := by
      rw [hcase, heq]
      exact Nat.le_refl _
    dsimp only
    split
    · exact h.setStage (.stopping session) trivial (by rw [hcase]; rfl) (hbudget rfl) rfl
    · exact h.setStage (.assigning session) trivial (by rw [hcase]; rfl) (hbudget rfl) rfl
  | stopping session =>
    unfold Service.manage
    rw [hcase]
    exact h.setStage (.assigning session) trivial (by rw [hcase]; rfl)
      (by rw [hcase]; exact Nat.le_refl _) rfl
  | assigning session =>
    unfold Service.manage
    rw [hcase]
    exact h.setStage (.looping 0) trivial (by rw [hcase]; rfl)
      (by rw [hcase]; exact Nat.le_refl _) rfl

/-! ## Every step -/

/-- **Every step** answers each request at most once and forgets none. -/
theorem RequestSound.exec (h : s.RequestSound) (event : Event) : (s.exec event).RequestSound := by
  cases event with
  | request p_request my_printf => exact h.controlRequest p_request my_printf
  | refuse => exact h.refuse
  | manage answer => exact h.manage answer
  | bind p_port p_queue capacity =>
    show (s.bind p_port p_queue capacity).RequestSound
    unfold Service.bind
    split
    · exact h
    split
    · exact h
    split
    · exact h
    · exact h.same rfl rfl rfl rfl rfl rfl rfl rfl rfl
  | sample bus =>
    show (s.sample bus).RequestSound
    unfold Service.sample
    split
    · exact h
    · exact h.same rfl rfl rfl rfl rfl rfl rfl rfl rfl
  | read p_data capacity =>
    have hend (record : Read) : (s.readEnd record).RequestSound :=
      h.same rfl rfl rfl rfl rfl rfl rfl rfl rfl
    show (s.read p_data capacity).RequestSound
    unfold Service.read
    split
    · split
      · exact h
      · exact h.same rfl rfl rfl rfl rfl rfl rfl rfl rfl
    · exact h.same rfl rfl rfl rfl rfl rfl rfl rfl rfl
    · split
      · exact h.same rfl rfl rfl rfl rfl rfl rfl rfl rfl
      · exact h.same rfl rfl rfl rfl rfl rfl rfl rfl rfl
    · dsimp only
      split
      · exact hend _
      split
      · exact hend _
      split
      · exact h.same rfl rfl rfl rfl rfl rfl rfl rfl rfl
      · exact hend _
  | link connected session =>
    show (s.relink connected session).RequestSound
    unfold Service.relink
    split
    · exact h.same rfl rfl rfl rfl rfl rfl rfl rfl rfl
    split
    · exact h
    · exact h.same rfl rfl rfl rfl rfl rfl rfl rfl rfl

end Service
open Service

/-- A request of three bytes and more. -/
def demoRequest (bytes : List UInt8) : Event :=
  .request (some (⟨0, 0, 7, 0, 1, 0, 0, 0, 0, UInt16.ofNat bytes.length, 0, 0, 0⟩,
    some fun i => bytes.getD i 0)) 3

end Atoman.RealtimeScope
