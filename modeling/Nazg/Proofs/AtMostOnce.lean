import Nazg.Bot.Doctor
import Nazg.Proofs.ScriptResult

/-!
# How often a script is started

In every state that a call can reach, whatever was delivered, lost, delayed or timed
out, the agent has started the script at most once and so has SSH. Both have only when
the controller gave the agent up after the whole `RunCommand` had left it: from then on
it cannot tell an agent that never got the script from one that is running it.
-/

namespace Nazg.Bot

open Lib Agent

namespace Call

/-! ## What a step keeps -/

/-- The agent has received the beginning of what the controller has sent; and a
controller that gave a connection up had no result. -/
structure Inv (c : Call) (st : CallState) : Prop where
  toAgent_flowing : Flowing st.toAgent
  toAgent_noStall : .stall ∉ st.toAgent
  toAgent_prefix : available st.toAgent <+: (c.agentCall st.fromAgent).sent
  unconnected : st.connected = false → st.toAgent = []
  prefers : st.connected = true → preferAgent c.host = true
  gaveUp : st.gaveUp = true → st.connected = true →
    (c.kind.execute c.host (c.agentCall st.fromAgent).result ⟨0, []⟩).executedViaAgent = false
  viaSsh : st.viaSsh = true → st.gaveUp = true

/-- What a controller has sent stays sent when more reaches it. -/
theorem agentCall_sent_append (c : Call) (s t : List Arrival) :
    (c.agentCall s).sent <+: (c.agentCall (s ++ t)).sent := by
  rw [agentCall, agentCall]
  rcases AgentTransport.executeScript_cases (fun _ _ => some ⟨c.writable, s⟩) c.host c.pad c.script
    with ⟨hnone, -⟩ | ⟨sock, hsock, ⟨h, -⟩ | ⟨ack, s', w, hack, htype, hw, h⟩⟩
  · cases hnone
  · cases hsock
    rw [h]
    rcases AgentTransport.executeScript_cases (fun _ _ => some ⟨c.writable, s ++ t⟩) c.host c.pad
        c.script with ⟨hnone, -⟩ | ⟨sock, hsock, ⟨h', -⟩ | ⟨_, _, _, -, -, -, h'⟩⟩
    · cases hnone
    · cases hsock
      exact h' ▸ List.prefix_rfl
    · rw [h']
      exact (List.take_prefix _ _).trans (List.prefix_append _ _)
  · cases hsock
    have hack' := readFrame_append t hack
    rw [h]
    rcases AgentTransport.executeScript_cases (fun _ _ => some ⟨c.writable, s ++ t⟩) c.host c.pad
        c.script with ⟨hnone, -⟩ | ⟨sock, hsock, ⟨-, hfail⟩ | ⟨_, _, w', -, -, hw', h'⟩⟩
    · cases hnone
    · cases hsock
      rcases hfail with hshort | hfail
      · have hle : c.writable = _ + w := hw
        have hlt : c.writable < _ := hshort
        omega
      · exact absurd htype (hfail _ _ hack')
    · cases hsock
      have hleft : w = w' := Nat.add_left_cancel (hw.symm.trans hw')
      rw [hleft]
      exact h' ▸ List.prefix_rfl

theorem inv_init (c : Call) : Inv c init where
  toAgent_flowing := fun _ h => absurd h List.not_mem_nil
  toAgent_noStall := List.not_mem_nil
  toAgent_prefix := List.nil_prefix
  unconnected := fun _ => rfl
  prefers := fun h => nomatch h
  gaveUp := fun h => nomatch h
  viaSsh := fun h => nomatch h

theorem inv_step {c : Call} {st st' : CallState} {e : CallEvent} (h : Inv c st)
    (hstep : c.step st e = some st') : Inv c st' := by
  cases e with
  | connect =>
      rw [step] at hstep
      split at hstep
      · next hguard =>
          cases hstep
          simp only [active, Bool.and_eq_true, Bool.not_eq_true'] at hguard
          exact ⟨h.toAgent_flowing, h.toAgent_noStall, h.toAgent_prefix, (fun hc => nomatch hc),
            fun _ => hguard.1.1,
            fun hg _ => absurd hg (by rw [hguard.1.2.2]; exact Bool.false_ne_true), h.viaSsh⟩
      · cases hstep
  | reachAgent chunk =>
      rw [step] at hstep
      split at hstep
      · next hguard =>
          cases hstep
          obtain ⟨hconn, hne, hpre⟩ := hguard
          refine ⟨h.toAgent_flowing.append_data hne, ?_, ?_, ?_, h.prefers, h.gaveUp, h.viaSsh⟩
          · intro hm
            rcases List.mem_append.1 hm with hm | hm
            · exact h.toAgent_noStall hm
            · exact nomatch List.mem_singleton.1 hm
          · show available (st.toAgent ++ [.data chunk]) <+: _
            rw [available_append_data h.toAgent_noStall]
            exact hpre
          · intro hc
            exact absurd hconn (by rw [hc]; exact Bool.false_ne_true)
      · cases hstep
  | reachController chunk =>
      rw [step] at hstep
      split at hstep
      · next hguard =>
          cases hstep
          obtain ⟨-, hactive, -, -⟩ := hguard
          simp only [active, Bool.and_eq_true, Bool.not_eq_true'] at hactive
          refine ⟨h.toAgent_flowing, h.toAgent_noStall,
            h.toAgent_prefix.trans (c.agentCall_sent_append _ _), h.unconnected, h.prefers, ?_,
            h.viaSsh⟩
          intro hg
          exact absurd hg (by rw [hactive.2]; exact Bool.false_ne_true)
      · cases hstep
  | finish =>
      rw [step] at hstep
      split at hstep
      · cases hstep
        exact ⟨h.toAgent_flowing, h.toAgent_noStall, h.toAgent_prefix, h.unconnected, h.prefers,
          h.gaveUp, h.viaSsh⟩
      · cases hstep
  | giveUp =>
      rw [step] at hstep
      split at hstep
      · next hguard =>
          cases hstep
          refine ⟨h.toAgent_flowing, h.toAgent_noStall, h.toAgent_prefix, h.unconnected,
            h.prefers, ?_, fun _ => rfl⟩
          intro _ hconn
          exact Bool.eq_false_iff.2 (hguard.2 hconn)
      · cases hstep
  | startSsh =>
      rw [step] at hstep
      split at hstep
      · next hguard =>
          cases hstep
          simp only [Bool.and_eq_true] at hguard
          exact ⟨h.toAgent_flowing, h.toAgent_noStall, h.toAgent_prefix, h.unconnected, h.prefers,
            h.gaveUp, fun _ => hguard.1⟩
      · cases hstep

theorem inv_of_reachable {c : Call} {st : CallState} (h : System.Reachable c.system st) :
    Inv c st :=
  h.invariant (inv_init c) fun _ _ _ => inv_step

/-! ## Counting -/

/-- An agent that has started the script has received all of the hello and the script,
so the controller has handed them over. -/
theorem handedOver_of_agentStarts {c : Call} {st : CallState} (h : Inv c st)
    (hstart : c.agentStarts st ≠ 0) : c.agentStarts st = 1 ∧ c.handedOver st := by
  have hmem : .ranScript c.script ∈ c.actions st.toAgent :=
    List.count_pos_iff.1 (Nat.pos_of_ne_zero hstart)
  have hbound : (c.agentCall st.fromAgent).sent <+: c.helloFrame ++ c.runFrame :=
    executeScript_sent_initial _ c.host c.pad c.script
  obtain ⟨hactions, havail⟩ :=
    handleClient_of_ran h.toAgent_flowing (h.toAgent_prefix.trans hbound) hmem
  refine ⟨?_, ?_, ?_⟩
  · rw [agentStarts, actions, hactions]
    simp
  · cases hconn : st.connected with
    | true => rfl
    | false =>
        rw [h.unconnected hconn] at havail
        have hlen := congrArg List.length havail
        rw [List.length_append, Message.length_frame, available, List.length_nil] at hlen
        omega
  · have hpre := h.toAgent_prefix
    rw [havail] at hpre
    exact hbound.eq_of_length (Nat.le_antisymm hbound.length_le hpre.length_le)

/-- In every state a call can reach, the agent has started the script at most once and
SSH at most once, and both only after the controller, with no result, gave up an agent
that it had handed the whole `RunCommand`. -/
theorem starts_at_most_once_each (c : Call) (st : CallState)
    (h : System.Reachable c.system st) :
    c.agentStarts st ≤ 1 ∧ sshStarts st ≤ 1 ∧
      (1 < c.starts st → c.handedOver st ∧ st.gaveUp = true ∧
        (c.agentCall st.fromAgent).result = none) := by
  have hinv := inv_of_reachable h
  have hagent : c.agentStarts st ≤ 1 := by
    by_cases h0 : c.agentStarts st = 0
    · omega
    · exact (handedOver_of_agentStarts hinv h0).1.le
  have hssh : sshStarts st ≤ 1 := by
    rw [sshStarts]
    split <;> omega
  refine ⟨hagent, hssh, fun hboth => ?_⟩
  rw [starts] at hboth
  obtain ⟨-, hconn, hsent⟩ := handedOver_of_agentStarts hinv (by omega)
  have hgave : st.gaveUp = true := hinv.viaSsh <| by
    by_contra hno
    rw [sshStarts, if_neg hno] at hboth
    omega
  have hnone := hinv.gaveUp hgave hconn
  rw [DoctorKind.executedViaAgent, hinv.prefers hconn, Bool.true_and] at hnone
  exact ⟨⟨hconn, hsent⟩, hgave, Option.not_isSome_iff_eq_none.1 (by rw [hnone]; decide)⟩

/-! ## A lost reply -/

/-- A host marked for its agent, which has no token. -/
def labCall : Call where
  kind := .doctor
  host := { labHost with extraConfig := OrdMap.empty.insert (bytes "agent_available") (bytes "true") }
  script := bytes "true"
  writable := 1000
  pad := fun _ => ⟨0, 0, 0⟩
  rt := Runtime.create ⟨[], false, []⟩
  env := fun _ => idleHost
  agentPad := fun _ => ⟨0, 0, 0⟩

/-- The handshake, the script, and then the controller's receive times out while the
script is running. -/
def lostReply : List CallEvent :=
  [.connect, .reachAgent labCall.helloFrame, .reachController (helloAck.frame ⟨0, 0, 0⟩),
    .reachAgent labCall.runFrame, .giveUp, .startSsh]

def afterLostReply : CallState where
  connected := true
  finished := false
  gaveUp := true
  viaSsh := true
  fromAgent := [.data (helloAck.frame ⟨0, 0, 0⟩)]
  toAgent := [.data labCall.helloFrame, .data labCall.runFrame]

theorem lostReply_run : labCall.system.run labCall.system.init lostReply = some afterLostReply := by
  decide +kernel

theorem starts_at_most_once_each_lostReply :
    labCall.agentStarts afterLostReply ≤ 1 ∧ labCall.handedOver afterLostReply :=
  have h := starts_at_most_once_each labCall afterLostReply
    (System.Reachable.run .init lostReply_run)
  ⟨h.1, (h.2.2 (by decide +kernel)).1⟩

/-- The script is started twice: the agent is running it when SSH starts it again. -/
theorem lostReply_starts_twice :
    System.Reachable labCall.system afterLostReply ∧ labCall.starts afterLostReply = 2 :=
  ⟨System.Reachable.run .init lostReply_run, by decide +kernel⟩

end Call

end Nazg.Bot
