import Mathlib.Data.List.TakeWhile
import Mullion.Lib.Run
import Mullion.Relay.Traffic

/-!
# Which reply answers which request

The client of an agent knows what a reply answers only by its place in the stream. The relay writes
its own failures at once, among what the agent replies. So a failure may pass the reply to an
earlier request, and then every reply after it is taken for another one
(`failure_overtakes_reply`).

`answers` is what the client is to receive for a sequence of requests, and `Paired` says that it
gets a part of that from the beginning, and all of it once everything is settled. The proof keeps a
ledger of the client: the requests of which all bytes have come, the replies the agent has sent, and
the failures, where each stands among the answers. A request or a reply is added at its end
(`Ledger.request`, `Ledger.reply`), and a failure belongs there if everything before its request has
been answered and written and the window has room for it (`Ledger.refused`). That is `InTurn`, and
`replies_paired` is the result along every run in which blocked requests are in turn. What the links
and the windows do in between is known from the books of the relay.
-/

namespace Mullion
namespace Relay

open Mux Station Framing

/-! ## Answers -/

/-- The frame whose bytes are `failureFrame`. -/
def failure : Tagged := ⟨[], [5]⟩

section Answers

variable (answer : Nat → Tagged → Tagged)

/-- The answers to requests, when the first `j` that were allowed have been answered. -/
def answers : Nat → List Tagged → List Tagged
  | _, [] => []
  | j, f :: fs =>
    if allowed f then answer j f :: answers (j + 1) fs else failure :: answers j fs

/-- The replies of the agent, when it has replied to `j` requests. -/
def repliesTo : Nat → List Tagged → List Tagged
  | _, [] => []
  | j, f :: fs => answer j f :: repliesTo (j + 1) fs

theorem answers_append (j : Nat) (fs gs : List Tagged) : answers answer j (fs ++ gs) =
    answers answer j fs ++ answers answer (j + (fs.filter allowed).length) gs := by
  induction fs generalizing j with
  | nil => rfl
  | cons f fs ih =>
    rw [List.cons_append, answers, answers]
    by_cases hf : allowed f
    · rw [if_pos hf, if_pos hf, ih, List.filter_cons_of_pos hf, List.length_cons, List.cons_append]
      congr 3
      omega
    · rw [if_neg hf, if_neg hf, ih, List.filter_cons_of_neg hf, List.cons_append]

theorem repliesTo_append (j : Nat) (fs gs : List Tagged) : repliesTo answer j (fs ++ gs) =
    repliesTo answer j fs ++ repliesTo answer (j + fs.length) gs := by
  induction fs generalizing j with
  | nil => rfl
  | cons f fs ih =>
    rw [List.cons_append, repliesTo, repliesTo, ih, List.length_cons, List.cons_append]
    congr 3
    omega

/-- Requests that are all allowed are answered by the agent. -/
theorem answers_allowed (j : Nat) {fs : List Tagged} (h : ∀ f ∈ fs, allowed f = true) :
    answers answer j fs = repliesTo answer j fs := by
  induction fs generalizing j with
  | nil => rfl
  | cons f fs ih =>
    rw [answers, if_pos (h f List.mem_cons_self), repliesTo,
      ih _ fun g hg => h g (List.mem_cons_of_mem _ hg)]

/-- Requests that are all blocked are answered by failures. -/
theorem answers_blocked (j : Nat) {fs : List Tagged} (h : ∀ f ∈ fs, ¬ allowed f = true) :
    answers answer j fs = fs.map fun _ => failure := by
  induction fs with
  | nil => rfl
  | cons f fs ih =>
    rw [answers, if_neg (h f List.mem_cons_self), List.map_cons,
      ih fun g hg => h g (List.mem_cons_of_mem _ hg)]

end Answers

theorem encode_append (fs gs : List Tagged) : encode (fs ++ gs) = encode fs ++ encode gs :=
  List.flatMap_append

theorem encode_mono {fs gs : List Tagged} (h : fs <+: gs) : encode fs <+: encode gs := by
  obtain ⟨t, rfl⟩ := h
  exact ⟨encode t, (encode_append fs t).symm⟩

/-! ## The property -/

/-- A client with a script, and an agent that answers each request it has received, in order. -/
def answering (script : List Request) (answer : Nat → Tagged → Tagged) : Peers where
  script := script
  mayAnswer received replies :=
    decide (replies <+: encode (repliesTo answer 0 (agentFrames.drain received).1))

/-- The script is sent, nothing is in flight or waits, and the agent has answered. -/
structure Settled (script : List Request) (answer : Nat → Tagged → Tagged) (s : System) :
    Prop where
  sent : s.client.sent = encode (frames script)
  answered : s.agent.sent = encode (repliesTo answer 0 (agentFrames.drain s.agent.handed).1)
  clientOut : s.client.out = []
  clientBack : s.bridge.client.out = []
  agentOn : s.bridge.agent.out = []
  agentOut : s.agent.out = []
  waiting : s.bridge.requests = [] ∧ s.bridge.replies = []

/-- What the client has received are whole answers to its requests, in their order, the last
perhaps in part; and all of them when all is settled. -/
structure Paired (script : List Request) (answer : Nat → Tagged → Tagged) (s : System) :
    Prop where
  inOrder : s.client.handed <+: encode (answers answer 0 (frames script))
  whole : Settled script answer s → s.client.handed = encode (answers answer 0 (frames script))

/-- The blocked requests of a chunk arrive when everything before them has been answered and
written, and their failures fit. -/
structure Clear (answer : Nat → Tagged → Tagged) (r : Bridge) (new : List Tagged) : Prop where
  answered : r.agent.handed = encode (repliesTo answer 0
    ((agentFrames.drain r.client.handed).1.filter allowed))
  written : r.replies = []
  first : ∀ f ∈ new.dropWhile (!allowed ·), allowed f = true
  fits : (new.filter (!allowed ·)).length * failureFrame.length ≤ r.client.sendWindow

instance (answer : Nat → Tagged → Tagged) (r : Bridge) (new : List Tagged) :
    Decidable (Clear answer r new) :=
  decidable_of_iff (_ ∧ _ ∧ _ ∧ _)
    ⟨fun ⟨h₁, h₂, h₃, h₄⟩ => ⟨h₁, h₂, h₃, h₄⟩, fun h => ⟨h.answered, h.written, h.first, h.fits⟩⟩

/-- The requests that the oldest frame of the client completes. -/
def completed (s : System) : List Tagged :=
  match s.client.out with
  | .data chunk :: _ => (agentFrames.drain (s.bridge.filter ++ chunk)).1
  | _ => []

/-- A step that leaves the failures in their turn. -/
def InTurn (answer : Nat → Tagged → Tagged) (s : System) : System.Event → Prop
  | .fromClient =>
    (∀ f ∈ completed s, allowed f = true) ∨ Clear answer s.bridge (completed s)
  | _ => True

instance (answer : Nat → Tagged → Tagged) (s : System) : ∀ ev, Decidable (InTurn answer s ev)
  | .fromClient => inferInstanceAs (Decidable (_ ∨ _))
  | .clientSend _ | .clientAcknowledge _ | .agentSend _ | .agentAcknowledge _ | .fromAgent
  | .toClient | .toAgent => isTrue trivial

/-! ## What is written to the client -/

section Ledger

variable {answer : Nat → Tagged → Tagged} {fs : List Tagged} {r : Bridge}

/-- What is written to the client, what waits and what the agent has not sent yet are the
answers, and the last of it is what the agent will send. -/
def Ledger (answer : Nat → Tagged → Tagged) (fs : List Tagged) (r : Bridge) : Prop :=
  ∃ rest, r.client.sent ++ r.replies.flatten ++ rest = encode (answers answer 0 fs) ∧
    r.agent.handed ++ rest = encode (repliesTo answer 0 (fs.filter allowed))

theorem Ledger.request (h : Ledger answer fs r) (ha : Account fs r) :
    Ledger answer fs (r.withRequest r.request.flushed) := by
  have hkept := ha.kept
  have hflush := flush_calls r.requests ha.client ha.agent (by omega)
  obtain ⟨rest, hanswers, hreplies⟩ := h
  refine ⟨rest, ?_, ?_⟩
  · show (flush r.client r.agent r.requests).1.sent ++ r.replies.flatten ++ rest = _
    rw [hflush.same.1]
    exact hanswers
  · show (flush r.client r.agent r.requests).2.1.handed ++ rest = _
    rw [hflush.calls_dest.handed]
    exact hreplies

theorem Ledger.reply (h : Ledger answer fs r) (ha : Account fs r) :
    Ledger answer fs (r.withReply r.reply.flushed) := by
  have howed := ha.owed
  have hflush := flush_calls r.replies ha.agent ha.client (by omega)
  obtain ⟨rest, hanswers, hreplies⟩ := h
  obtain ⟨done, hdone, hsent⟩ := hflush.sent
  refine ⟨rest, ?_, ?_⟩
  · show (flush r.agent r.client r.replies).2.1.sent ++
      (flush r.agent r.client r.replies).2.2.flatten ++ rest = _
    rw [hsent, List.append_assoc r.client.sent, ← List.flatten_append, ← hdone]
    exact hanswers
  · show (flush r.agent r.client r.replies).1.handed ++ rest = _
    rw [hflush.calls_source.handed]
    exact hreplies

/-- A chunk of the agent is the next of what it will send. -/
theorem Ledger.answered (h : Ledger answer fs r) (hl : Listening r.agent) (id : Nat)
    {chunk : List UInt8}
    (hnext : r.agent.handed ++ chunk <+: encode (repliesTo answer 0 (fs.filter allowed))) :
    Ledger answer fs { r with
      agent := r.agent.handle id (.data chunk), replies := r.replies ++ [chunk] } := by
  obtain ⟨rest, hanswers, hreplies⟩ := h
  rw [← hreplies, List.prefix_append_right_inj] at hnext
  obtain ⟨rest', rfl⟩ := hnext
  rw [hl.handle_data id chunk]
  refine ⟨rest', ?_, ?_⟩
  · rw [← hanswers, List.flatten_append, List.flatten_singleton, ← List.append_assoc,
      ← List.append_assoc]
  · rw [← hreplies]
    exact List.append_assoc _ _ _

theorem failures_flatten (new : List Tagged) : (classified new).reject.flatten =
    encode ((new.filter (!allowed ·)).map fun _ => failure) := by
  rw [classified_reject]
  unfold encode
  rw [List.flatMap_map, List.flatMap_def]
  rfl

/-- The failures of a chunk are written when they fit. -/
theorem Account.refused_sent (h : Account fs r) (id : Nat) {chunk kept : List UInt8}
    {new : List Tagged} (hfeed : agentFrames.drain (r.filter ++ chunk) = (new, some kept))
    (hfits : (new.filter (!allowed ·)).length * failureFrame.length ≤ r.client.sendWindow) :
    (Bridge.refused { r with client := r.client.handle id (.data chunk) } new kept).client.sent =
      r.client.sent ++ encode ((new.filter (!allowed ·)).map fun _ => failure) := by
  have hhandle := h.client.handle_data id chunk
  have hlisten : Listening (r.client.handle id (.data chunk)) := by
    rw [hhandle]
    exact h.client
  have hkept := h.kept
  have htotal : r.filter.length + chunk.length =
      (new.flatMap Tagged.encode).length + kept.length := by
    rw [← List.length_append, ← List.length_append, encode_drain hfeed]
  rw [← classified_total] at htotal
  have hlength : (classified new).reject.flatten.length =
      (new.filter (!allowed ·)).length * failureFrame.length := by
    rw [classified_reject, List.map_const', List.length_flatten, List.map_replicate,
      List.sum_replicate, smul_eq_mul]
  obtain ⟨-, -, hsent⟩ := sendRejects_calls (classified new).reject
    (classified new).rejectedLengths (classified_lengths new) hlisten
    (by rw [hhandle]; simp only [List.length_append]; omega)
  have hwrite := hsent (by rw [hlength, hhandle]; exact hfits)
  have hsame : (r.client.handle id (.data chunk)).sent = r.client.sent := by rw [hhandle]
  rw [failures_flatten, hsame] at hwrite
  exact hwrite

/-- The failures are written in their turn. -/
theorem Ledger.refused (h : Ledger answer fs r) (ha : Account fs r) (id : Nat)
    {chunk kept : List UInt8} {new : List Tagged}
    (hfeed : agentFrames.drain (r.filter ++ chunk) = (new, some kept))
    (hturn : (∀ f ∈ new, allowed f = true) ∨ Clear answer r new) :
    Ledger answer (fs ++ new)
      (Bridge.refused { r with client := r.client.handle id (.data chunk) } new kept) := by
  obtain ⟨rest, hanswers, hreplies⟩ := h
  have hsent := ha.refused_sent id hfeed
  rcases hturn with hall | ⟨hanswered, hwritten, hfirst, hfits⟩
  · -- nothing is blocked
    have hnone : new.filter (!allowed ·) = [] := by
      rw [List.filter_eq_nil_iff]
      intro f hf
      rw [hall f hf]
      decide
    have hsome : new.filter allowed = new := List.filter_eq_self.2 hall
    rw [hnone] at hsent
    refine ⟨rest ++ encode (repliesTo answer (fs.filter allowed).length new), ?_, ?_⟩
    · rw [hsent (by rw [List.length_nil, Nat.zero_mul]; exact Nat.zero_le _)]
      rw [answers_append, answers_allowed answer _ hall, encode_append, ← hanswers, Nat.zero_add]
      simp only [Bridge.refused, List.map_nil, encode, List.flatMap_nil, List.append_nil,
        List.append_assoc]
    · rw [List.filter_append, hsome, repliesTo_append, encode_append, ← hreplies, Nat.zero_add,
        List.append_assoc]
      rfl
  · -- everything before has been answered
    rw [ha.cut] at hanswered
    obtain rfl : rest = [] := by
      rw [hanswered] at hreplies
      exact List.append_right_eq_self.1 hreplies
    rw [hwritten, List.flatten_nil, List.append_nil, List.append_nil] at hanswers
    obtain ⟨blocked, hblocked⟩ : ∃ l, l = new.takeWhile (!allowed ·) := ⟨_, rfl⟩
    obtain ⟨passed, hpassed⟩ : ∃ l, l = new.dropWhile (!allowed ·) := ⟨_, rfl⟩
    rw [← hpassed] at hfirst
    have hnew : new = blocked ++ passed := by
      rw [hblocked, hpassed, List.takeWhile_append_dropWhile]
    have hno : ∀ f ∈ blocked, (!allowed f) = true := by
      intro f hf
      rw [hblocked] at hf
      exact List.mem_takeWhile_imp (p := (!allowed ·)) hf
    have hrefused : new.filter (!allowed ·) = blocked := by
      rw [hnew, List.filter_append, List.filter_eq_self.2 hno, List.filter_eq_nil_iff.2,
        List.append_nil]
      intro f hf
      rw [hfirst f hf]
      decide
    have hforwarded : new.filter allowed = passed := by
      rw [hnew, List.filter_append, List.filter_eq_self.2 hfirst, List.filter_eq_nil_iff.2,
        List.nil_append]
      intro f hf hyes
      have hf' := hno f hf
      rw [hyes] at hf'
      cases hf'
    rw [hrefused] at hsent hfits
    have hanswer : answers answer (fs.filter allowed).length new =
        (blocked.map fun _ => failure) ++ repliesTo answer (fs.filter allowed).length passed := by
      have hnone : blocked.filter allowed = [] := by
        rw [List.filter_eq_nil_iff]
        intro f hf hyes
        have hf' := hno f hf
        rw [hyes] at hf'
        cases hf'
      rw [hnew, answers_append, hnone, List.length_nil, Nat.add_zero,
        answers_allowed answer _ hfirst, answers_blocked]
      intro f hf hyes
      have hf' := hno f hf
      rw [hyes] at hf'
      cases hf'
    refine ⟨encode (repliesTo answer (fs.filter allowed).length passed), ?_, ?_⟩
    · rw [hsent hfits, answers_append, Nat.zero_add, hanswer, encode_append, encode_append,
        ← hanswers]
      show r.client.sent ++ encode _ ++ r.replies.flatten ++ _ = _
      rw [hwritten, List.flatten_nil, List.append_nil, List.append_assoc]
    · rw [List.filter_append, hforwarded, repliesTo_append, encode_append, ← hanswered, Nat.zero_add]
      rfl

end Ledger

/-! ## The invariant -/

/-- The replies to the first of some requests are the first of the replies. -/
theorem repliesTo_mono (answer : Nat → Tagged → Tagged) {fs gs : List Tagged} (h : fs <+: gs) :
    encode (repliesTo answer 0 fs) <+: encode (repliesTo answer 0 gs) := by
  obtain ⟨t, rfl⟩ := h
  rw [repliesTo_append]
  exact encode_mono (List.prefix_append _ _)

/-- What holds of the client, the relay and an agent that answers in order. -/
structure Turns (script : List Request) (answer : Nat → Tagged → Tagged) (s : System) : Prop
    extends System.Inv (answering script answer) s where
  ledger : Ledger answer (agentFrames.drain s.bridge.client.handed).1 s.bridge
  heard : s.agent.sent <+: encode (repliesTo answer 0 (agentFrames.drain s.agent.handed).1)

namespace Turns

variable {script : List Request} {answer : Nat → Tagged → Tagged} {ids : Nat × Nat} {s s' : System}

/-- What the agent has received is cut into the first of the allowed requests. -/
theorem received (h : Turns script answer s) {fs : List Tagged} (hbooks : Books fs s.bridge) :
    (agentFrames.drain s.agent.handed).1 <+: fs.filter allowed := by
  obtain ⟨ch, hp, hdata, -⟩ := h.agent
  obtain ⟨hdelivered, hheld⟩ := h.agentSide.conserved.delivered .a ch hp
  obtain ⟨done, hdone, hsent⟩ := hbooks.forwarded
  have hall : agentFrames.drain (encode (fs.filter allowed)) = (fs.filter allowed, some []) :=
    drain_encoded script fun f hf => h.cut_mem hbooks (List.mem_of_mem_filter hf)
  have hbytes : encode (fs.filter allowed) =
      s.agent.handed ++ (Lane.payloads s.bridge.agent.out ++ s.bridge.requests.flatten) := by
    rw [hheld hdata, List.flatten_nil, List.append_nil] at hdelivered
    change s.agent.handed ++ Lane.payloads s.bridge.agent.out = s.bridge.agent.sent at hdelivered
    rw [← List.append_assoc, hdelivered, hsent, ← List.flatten_append, ← hdone]
    exact List.flatMap_def
  rw [hbytes] at hall
  obtain ⟨got, kept, left, hdrain, hgot, -⟩ := Format.drain_prefix _ hall
  rw [hdrain, hgot]
  exact List.prefix_append _ _

/-- A chunk of the agent that arrives is the next of its replies. -/
theorem next (h : Turns script answer s) {fs : List Tagged} (hbooks : Books fs s.bridge)
    {chunk : List UInt8} {out : List Packet} (hout : s.agent.out = .data chunk :: out) :
    s.bridge.agent.handed ++ chunk <+: encode (repliesTo answer 0 (fs.filter allowed)) := by
  obtain ⟨ch, hp, hdata, -⟩ := hbooks.agent
  obtain ⟨hdelivered, hheld⟩ := h.agentSide.conserved.delivered .b ch hp
  rw [hheld hdata, List.flatten_nil, List.append_nil] at hdelivered
  change s.bridge.agent.handed ++ Lane.payloads s.agent.out = s.agent.sent at hdelivered
  rw [hout, Lane.payloads_cons, ← List.append_assoc] at hdelivered
  have hsent : s.bridge.agent.handed ++ chunk <+: s.agent.sent := ⟨_, hdelivered⟩
  exact (hsent.trans h.heard).trans (repliesTo_mono answer (h.received hbooks))

/-- The agent sends what it may. -/
theorem heard_step {ev : System.Event} (h : Turns script answer s)
    (hs : System.step (answering script answer) ids s ev = some s') :
    s'.agent.sent <+: encode (repliesTo answer 0 (agentFrames.drain s'.agent.handed).1) := by
  cases ev with
  | clientSend chunk =>
    rw [System.step] at hs
    split at hs
    · obtain ⟨client, -, rfl⟩ := Option.map_eq_some_iff.1 hs
      exact h.heard
    · cases hs
  | clientAcknowledge n =>
    obtain ⟨client, -, rfl⟩ := Option.map_eq_some_iff.1 hs
    exact h.heard
  | agentSend chunk =>
    rw [System.step] at hs
    split at hs
    case isTrue hmay =>
      obtain ⟨agent, hact, rfl⟩ := Option.map_eq_some_iff.1 hs
      obtain ⟨ch, -, -, rfl⟩ := act_send hact
      exact of_decide_eq_true hmay
    case isFalse => cases hs
  | agentAcknowledge n =>
    obtain ⟨agent, hack, rfl⟩ := Option.map_eq_some_iff.1 hs
    obtain ⟨hcalls, hsent⟩ := calls_of_acknowledged hack
    show agent.sent <+: encode (repliesTo answer 0 (agentFrames.drain agent.handed).1)
    rw [hsent, hcalls.handed]
    exact h.heard
  | fromClient =>
    rw [System.step] at hs
    split at hs
    · cases hs
    · cases hs
      exact h.heard
  | fromAgent =>
    rw [System.step] at hs
    split at hs
    · cases hs
    · cases hs
      exact h.heard
  | toClient =>
    rw [System.step] at hs
    split at hs
    · cases hs
    · cases hs
      exact h.heard
  | toAgent =>
    rw [System.step] at hs
    split at hs
    · cases hs
    case h_2 p out hout =>
      cases hs
      rcases h.plain.2.2.1 p (hout ▸ List.mem_cons_self) with ⟨chunk, rfl⟩ | ⟨n, rfl⟩
      · rw [h.agent.handle_data]
        exact h.heard.trans (repliesTo_mono answer (Format.drain_mono _ _ _))
      · obtain ⟨phase, hhandle, -⟩ := h.agent.handle_windowAdjust ids.2 n
        rw [hhandle]
        exact h.heard

theorem ledger_cut {fs : List Tagged} {r : Bridge} (hledger : Ledger answer fs r)
    (hbooks : Books fs r) : Ledger answer (agentFrames.drain r.client.handed).1 r := by
  rw [hbooks.cut]
  exact hledger

/-- A frame of the client arrives in turn. -/
theorem ledger_fromClient (h : Turns script answer s) (hturn : InTurn answer s .fromClient)
    {p : Packet} {out : List Packet} (hout : s.client.out = p :: out) (id : Nat) :
    Ledger answer (agentFrames.drain (s.bridge.fromClient id p).client.handed).1
      (s.bridge.fromClient id p) := by
  obtain ⟨fs, hbooks⟩ := h.books
  have hledger := h.ledger
  rw [hbooks.cut] at hledger
  rcases h.plain.1 p (hout ▸ List.mem_cons_self) with ⟨chunk, rfl⟩ | ⟨n, rfl⟩
  · obtain ⟨new, kept, -, hfeed, -⟩ := h.feed hbooks hout
    unfold InTurn completed at hturn
    rw [hout] at hturn
    simp only [hfeed] at hturn
    refine ledger_cut ?_ (hbooks.fromClient_data id hfeed).1
    rw [Bridge.fromClient_data hbooks.toAccount id hfeed]
    exact (hledger.refused hbooks.toAccount id hfeed hturn).request
      (hbooks.toAccount.refused id hfeed).1
  · refine ledger_cut ?_ (hbooks.fromClient_windowAdjust id n).1
    have hadjusted := (hbooks.adjusted id n).toAccount
    rw [Bridge.fromClient_windowAdjust hbooks.toAccount]
    obtain ⟨phase, hhandle, -⟩ := hbooks.client.handle_windowAdjust id n
    rw [hhandle] at hadjusted ⊢
    exact Ledger.reply (r := { s.bridge with client := { s.bridge.client with phase } }) hledger
      hadjusted

/-- A frame of the agent arrives. -/
theorem ledger_fromAgent (h : Turns script answer s) {p : Packet} {out : List Packet}
    (hout : s.agent.out = p :: out) (id : Nat) :
    Ledger answer (agentFrames.drain (s.bridge.fromAgent id p).client.handed).1
      (s.bridge.fromAgent id p) := by
  obtain ⟨fs, hbooks⟩ := h.books
  have hledger := h.ledger
  rw [hbooks.cut] at hledger
  rcases h.plain.2.2.2 p (hout ▸ List.mem_cons_self) with ⟨chunk, rfl⟩ | ⟨n, rfl⟩
  · refine ledger_cut ?_ (hbooks.fromAgent_data id chunk).1
    rw [Bridge.fromAgent_data hbooks.toAccount]
    exact (hledger.answered hbooks.agent id (h.next hbooks hout)).reply
      (hbooks.answered id chunk).toAccount
  · refine ledger_cut ?_ (hbooks.fromAgent_windowAdjust id n).1
    have hadjusted := hbooks.toAccount.adjusted id n
    rw [Bridge.fromAgent_windowAdjust hbooks.toAccount]
    obtain ⟨phase, hhandle, -⟩ := hbooks.agent.handle_windowAdjust id n
    rw [hhandle] at hadjusted ⊢
    exact Ledger.request (r := { s.bridge with agent := { s.bridge.agent with phase } }) hledger
      hadjusted

/-- A step in turn keeps the ledger. -/
theorem ledger_step {ev : System.Event} (h : Turns script answer s) (hturn : InTurn answer s ev)
    (hs : System.step (answering script answer) ids s ev = some s') :
    Ledger answer (agentFrames.drain s'.bridge.client.handed).1 s'.bridge := by
  cases ev with
  | clientSend chunk =>
    rw [System.step] at hs
    split at hs
    · obtain ⟨client, -, rfl⟩ := Option.map_eq_some_iff.1 hs
      exact h.ledger
    · cases hs
  | clientAcknowledge n =>
    obtain ⟨client, -, rfl⟩ := Option.map_eq_some_iff.1 hs
    exact h.ledger
  | agentSend chunk =>
    rw [System.step] at hs
    split at hs
    · obtain ⟨agent, -, rfl⟩ := Option.map_eq_some_iff.1 hs
      exact h.ledger
    · cases hs
  | agentAcknowledge n =>
    obtain ⟨agent, -, rfl⟩ := Option.map_eq_some_iff.1 hs
    exact h.ledger
  | fromClient =>
    rw [System.step] at hs
    split at hs
    · cases hs
    case h_2 p out hout =>
      cases hs
      exact h.ledger_fromClient hturn hout ids.1
  | fromAgent =>
    rw [System.step] at hs
    split at hs
    · cases hs
    case h_2 p out hout =>
      cases hs
      exact h.ledger_fromAgent hout ids.2
  | toClient =>
    rw [System.step] at hs
    split at hs
    · cases hs
    · cases hs
      exact h.ledger
  | toAgent =>
    rw [System.step] at hs
    split at hs
    · cases hs
    · cases hs
      exact h.ledger

/-- A step in turn keeps the invariant. -/
theorem step {ev : System.Event} (h : Turns script answer s) (hturn : InTurn answer s ev)
    (hs : System.step (answering script answer) ids s ev = some s') : Turns script answer s' :=
  ⟨System.step_inv h.toInv hs, h.ledger_step hturn hs, h.heard_step hs⟩

/-- It holds when both channels have been opened. -/
theorem piped (script : List Request) (answer : Nat → Tagged → Tagged) (ids : Nat × Nat) :
    Turns script answer (System.piped ids) :=
  ⟨System.Inv.piped _ ids, ⟨[], rfl, rfl⟩, List.nil_prefix⟩

/-- What the client has received are the first of the bytes that the relay has written. -/
theorem written (h : Turns script answer s) :
    s.client.handed ++ Lane.payloads s.bridge.client.out = s.bridge.client.sent := by
  obtain ⟨ch, hp, hdata, -⟩ := h.client
  obtain ⟨hdelivered, hheld⟩ := h.clientSide.conserved.delivered .b ch hp
  rw [hheld hdata, List.flatten_nil, List.append_nil] at hdelivered
  exact hdelivered

/-- The replies stand in the order of the requests. -/
theorem paired (h : Turns script answer s) : Paired script answer s := by
  obtain ⟨fs, hbooks⟩ := h.books
  obtain ⟨rest, hanswers, hreplies⟩ := h.ledger
  rw [hbooks.cut] at hanswers hreplies
  have hwritten := h.written
  constructor
  case inOrder =>
    obtain ⟨all, kept, left, hdrain, hall⟩ := drain_script script
      (List.IsPrefix.trans ⟨_, h.arrived⟩ h.script)
    rw [hbooks.cut] at hdrain
    obtain ⟨rfl, -⟩ := Prod.mk.inj hdrain
    have hhanded : s.client.handed <+: encode (answers answer 0 fs) := by
      refine ⟨Lane.payloads s.bridge.client.out ++ (s.bridge.replies.flatten ++ rest), ?_⟩
      rw [← hanswers, ← hwritten]
      simp only [List.append_assoc]
    refine hhanded.trans ?_
    rw [hall, answers_append]
    exact encode_mono (List.prefix_append _ _)
  case whole =>
    rintro ⟨hsent, hanswered, hclientOut, hclientBack, hagentOn, hagentOut, hrequests, hwaiting⟩
    -- all of the script has arrived
    have hscript := h.arrived
    rw [hclientOut, Lane.payloads_nil, List.append_nil, hsent] at hscript
    have hcut := hbooks.cut
    rw [hscript, drain_frames] at hcut
    obtain ⟨rfl, -⟩ := Prod.mk.inj hcut
    -- all allowed requests have been forwarded, and all replies have arrived
    obtain ⟨done, hdone, hforwarded⟩ := hbooks.forwarded
    rw [hrequests, List.append_nil] at hdone
    obtain ⟨ch, hp, hdata, -⟩ := h.agent
    obtain ⟨hdelivered, hheld⟩ := h.agentSide.conserved.delivered .a ch hp
    rw [hheld hdata, List.flatten_nil, List.append_nil] at hdelivered
    change s.agent.handed ++ Lane.payloads s.bridge.agent.out = s.bridge.agent.sent at hdelivered
    rw [hagentOn, Lane.payloads_nil, List.append_nil, hforwarded, ← hdone] at hdelivered
    have hheard : s.agent.handed = encode ((frames script).filter allowed) :=
      hdelivered.trans List.flatMap_def.symm
    rw [hheard, drain_encoded script fun f hf => List.mem_of_mem_filter hf] at hanswered
    obtain ⟨ch', hp', hdata', -⟩ := hbooks.agent
    obtain ⟨hdelivered', hheld'⟩ := h.agentSide.conserved.delivered .b ch' hp'
    rw [hheld' hdata', List.flatten_nil, List.append_nil] at hdelivered'
    change s.bridge.agent.handed ++ Lane.payloads s.agent.out = s.agent.sent at hdelivered'
    rw [hagentOut, Lane.payloads_nil, List.append_nil, hanswered] at hdelivered'
    rw [hdelivered'] at hreplies
    have hnil := List.append_right_eq_self.1 hreplies
    rw [hclientBack, Lane.payloads_nil, List.append_nil] at hwritten
    rw [hnil, hwaiting, List.flatten_nil, List.append_nil, List.append_nil, ← hwritten] at hanswers
    exact hanswers

end Turns

/-- **Which reply answers which request.** Along every run in which each blocked request
arrives when everything before it has been answered, and its failure fits, what the client
receives are whole answers in the order of its requests. -/
theorem replies_paired (script : List Request) (answer : Nat → Tagged → Tagged) (ids : Nat × Nat)
    (events : List System.Event)
    (h : Run.Meets (System.step (answering script answer) ids) (InTurn answer) (System.piped ids)
      events) :
    Run.Along (System.step (answering script answer) ids) (Paired script answer)
      (System.piped ids) events :=
  Run.along_of_invariant (I := Turns script answer) (fun _ _ _ hi hc hs => hi.step hc hs)
    (fun _ hi => hi.paired) (Turns.piped script answer ids) h

/-- The answer of an agent without keys. -/
def noIdentities : Tagged := ⟨[], [12, 0, 0, 0, 0]⟩

/-- A request that is blocked, and then one that is allowed, in one chunk. -/
theorem replies_paired_blocked_first :
    Run.Along
      (System.step (answering [ask 17 0 (by decide), ask 11 0 (by decide)] fun _ _ => noIdentities)
        (1, 2))
      (Paired [ask 17 0 (by decide), ask 11 0 (by decide)] fun _ _ => noIdentities)
      (System.piped (1, 2))
      [.clientSend [0, 0, 0, 1, 17, 0, 0, 0, 1, 11], .fromClient, .toClient, .toAgent,
        .agentSend [0, 0, 0, 5, 12, 0, 0, 0, 0], .fromAgent, .toClient] :=
  replies_paired _ _ _ _ (by decide)

/-- A request that is allowed, and then one that is blocked, in one chunk. -/
theorem failure_overtakes_reply :
    ¬ Run.Along
      (System.step (answering [ask 11 0 (by decide), ask 17 0 (by decide)] fun _ _ => noIdentities)
        (1, 2))
      (Paired [ask 11 0 (by decide), ask 17 0 (by decide)] fun _ _ => noIdentities)
      (System.piped (1, 2))
      [.clientSend [0, 0, 0, 1, 11, 0, 0, 0, 1, 17], .fromClient, .toClient] := by
  intro h
  have hplay : (Run.play
      (System.step (answering [ask 11 0 (by decide), ask 17 0 (by decide)] fun _ _ => noIdentities)
        (1, 2)) (System.piped (1, 2))
      [.clientSend [0, 0, 0, 1, 11, 0, 0, 0, 1, 17], .fromClient, .toClient]).map
        (·.client.handed) = some failureFrame := by decide
  obtain ⟨s, hs, hhanded⟩ := Option.map_eq_some_iff.1 hplay
  have horder := (h.last hs).inOrder
  rw [hhanded] at horder
  exact absurd horder (by decide)

end Relay
end Mullion
