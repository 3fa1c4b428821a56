import Mathlib.Algebra.BigOperators.Group.List.Basic
import Mathlib.Algebra.GroupWithZero.Nat
import Mathlib.Data.List.Chain
import Nazg.Lib.Runs
import Nazg.Tui.Window

/-!
# Closing panes

Whatever the threads do: the panes that were accepted are released in their order, each of them
once, and when the worker ends nothing that was accepted is left. No notification is lost: the
threads only stop when everything is released, and they get there in a bounded number of steps.
-/

namespace Nazg.Tui

namespace PaneReaper

variable {π : Type*}

/-! ## What every step keeps -/

structure Sound (s : PaneReaper π) : Prop where
  order : s.released ++ s.held ++ s.queue = s.accepted
  finished : s.worker = .finished → s.stop = true ∧ s.queue = []
  /-- Whoever changed what the worker waits for is still about to notify. -/
  notified : s.worker = .waiting → s.queue ≠ [] ∨ s.stop = true →
    ∃ joins, .notifying joins ∈ s.calls
  running : s.stop = false → ∀ call ∈ s.calls, call = .notifying false

theorem sound_start : Sound ({} : PaneReaper π) :=
  ⟨rfl, by simp, by simp, by simp⟩

theorem Sound.enqueue {s : PaneReaper π} (h : s.Sound) (pane : Option π) :
    (s.enqueue pane).Sound := by
  cases pane with
  | none => exact h
  | some pane =>
      rw [PaneReaper.enqueue]
      split
      · exact h
      · next hrunning =>
          refine ⟨?_, fun hfinished => absurd (h.finished hfinished).1 hrunning,
            fun _ _ => ⟨false, List.mem_cons_self⟩, fun hstop => ?_⟩
          · rw [← h.order, List.append_assoc (s.released ++ s.held)]
            rfl
          · exact List.forall_mem_cons.2 ⟨rfl, h.running hstop⟩

theorem Sound.shutdown {s : PaneReaper π} (h : s.Sound) : s.shutdown.Sound := by
  rw [PaneReaper.shutdown]
  split
  · exact h
  · next hrunning =>
      exact ⟨h.order, fun hfinished => absurd (h.finished hfinished).1 hrunning,
        fun _ _ => ⟨true, List.mem_cons_self⟩, by simp⟩

theorem Sound.turn {s : PaneReaper π} (h : s.Sound) (hworker : s.worker = .checking) :
    s.turn.Sound := by
  have horder := h.order
  rw [held, hworker] at horder
  rw [PaneReaper.turn]
  cases hqueue : s.queue with
  | nil =>
      rw [hqueue] at horder
      by_cases hstop : s.stop = true
      · simp only [hstop, if_true]
        exact ⟨horder, fun _ => ⟨rfl, rfl⟩, by simp, by simp⟩
      · rw [Bool.not_eq_true] at hstop
        simp only [hstop, Bool.false_eq_true, if_false]
        exact ⟨horder, by simp, by simp, fun _ => h.running hstop⟩
  | cons pane queue =>
      rw [hqueue] at horder
      refine ⟨?_, by simp, by simp, h.running⟩
      rw [← horder]
      simp [held]

theorem Sound.release {s : PaneReaper π} (h : s.Sound) {pane : π}
    (hworker : s.worker = .releasing pane) : (s.release pane).Sound := by
  have horder := h.order
  rw [held, hworker] at horder
  refine ⟨?_, by simp [PaneReaper.release], by simp [PaneReaper.release], h.running⟩
  simpa [PaneReaper.release, held] using horder

theorem Sound.notify {s : PaneReaper π} (h : s.Sound) {before after : List ReaperCall}
    {joins : Bool} (hcalls : s.calls = before ++ .notifying joins :: after) :
    Sound { s.notify with calls := before ++ afterNotify joins ++ after } := by
  have hrunning : s.stop = false →
      ∀ call ∈ before ++ afterNotify joins ++ after, call = .notifying false := by
    intro hstop call hcall
    have hall := h.running hstop
    rw [hcalls] at hall
    have hjoins : joins = false := by
      have hthis := hall (.notifying joins) (by simp)
      exact ReaperCall.notifying.inj hthis
    subst hjoins
    refine hall call ?_
    simp only [afterNotify, Bool.false_eq_true, if_false, List.append_nil,
      List.mem_append] at hcall
    rcases hcall with hcall | hcall
    · exact List.mem_append_left _ hcall
    · exact List.mem_append_right _ (List.mem_cons_of_mem _ hcall)
  have horder := h.order
  have hfinished := h.finished
  rw [PaneReaper.notify]
  cases hworker : s.worker with
  | waiting =>
      rw [held, hworker] at horder
      exact ⟨horder, by simp, by simp, hrunning⟩
  | checking => exact ⟨h.order, h.finished, by simp [hworker], hrunning⟩
  | releasing pane => exact ⟨h.order, h.finished, by simp [hworker], hrunning⟩
  | finished => exact ⟨h.order, h.finished, by simp [hworker], hrunning⟩

theorem Sound.goes {s s' : PaneReaper π} (h : s.Sound) (hgoes : Goes s s') : s'.Sound := by
  cases hgoes with
  | notify hcalls => exact h.notify hcalls
  | @join before after hcalls hworker =>
      refine ⟨h.order, h.finished, by simp [hworker], fun hstop => ?_⟩
      have hall := h.running hstop
      rw [hcalls] at hall
      exact fun call hcall => hall call (by
        rcases List.mem_append.1 hcall with hcall | hcall
        · exact List.mem_append_left _ hcall
        · exact List.mem_append_right _ (List.mem_cons_of_mem _ hcall))
  | turn hworker => exact h.turn hworker
  | release hworker => exact h.release hworker

theorem sound_of_reachable {s : PaneReaper π} (h : Reachable s) : s.Sound := by
  induction h with
  | refl => exact sound_start
  | tail _ hstep ih =>
      cases hstep with
      | goes hgoes => exact ih.goes hgoes
      | enqueue pane => exact ih.enqueue pane
      | shutdown => exact ih.shutdown
      | wake hworker =>
          have horder := ih.order
          rw [held, hworker] at horder
          exact ⟨horder, by simp, by simp, ih.running⟩

end PaneReaper

/-! ## How long the threads go on -/

def ReaperCall.work : ReaperCall → Nat
  | .notifying joins => if joins then 3 else 2
  | .joining => 1

def Worker.work {π : Type*} : Worker π → Nat
  | .releasing _ => 2
  | .checking => 1
  | _ => 0

namespace PaneReaper

variable {π : Type*} {s s' : PaneReaper π}

/-- A bound for the steps that the threads do by themselves. -/
def work (s : PaneReaper π) : Nat :=
  2 * s.queue.length + s.worker.work + (s.calls.map ReaperCall.work).sum

theorem work_notify_le (s : PaneReaper π) : s.notify.worker.work ≤ s.worker.work + 1 := by
  rw [notify]
  cases hworker : s.worker with
  | waiting => simp [Worker.work]
  | checking => simp [hworker]
  | releasing pane => simp [hworker]
  | finished => simp [hworker]

theorem queue_notify (s : PaneReaper π) : s.notify.queue = s.queue := by
  rw [notify]
  split <;> rfl

theorem work_lt_of_goes (h : Goes s s') : s'.work < s.work := by
  cases h with
  | @notify before after joins hcalls =>
      have hworker := work_notify_le s
      have hleft : ((afterNotify joins).map ReaperCall.work).sum + 2 ≤
          ReaperCall.work (.notifying joins) := by
        cases joins <;> decide
      simp only [work, hcalls, queue_notify, List.map_append, List.map_cons, List.sum_append,
        List.sum_cons]
      omega
  | @join before after hcalls hworker =>
      simp only [work, hcalls, List.map_append, List.map_cons, List.sum_append, List.sum_cons,
        ReaperCall.work]
      omega
  | turn hworker =>
      rw [work, work, hworker, turn]
      cases hqueue : s.queue with
      | nil =>
          cases s.stop <;> simp [Worker.work]
      | cons pane queue =>
          simp only [Worker.work, List.length_cons]
          omega
  | release hworker =>
      simp only [work, release, hworker, Worker.work]
      omega

/-- Where no thread goes on, nothing is left to do. -/
theorem Sound.done (h : s.Sound) (hstuck : ∀ s', ¬ Goes s s') :
    s.released = s.accepted ∧ s.calls = [] ∧ (s.stop = true → s.worker = .finished) := by
  have hsilent : ∀ joins, .notifying joins ∉ s.calls := by
    intro joins hmem
    obtain ⟨before, after, hcalls⟩ := List.append_of_mem hmem
    exact hstuck _ (.notify hcalls)
  have horder := h.order
  cases hworker : s.worker with
  | checking => exact absurd (.turn hworker) (hstuck _)
  | releasing pane => exact absurd (.release hworker) (hstuck _)
  | waiting =>
      have hidle : s.queue = [] ∧ s.stop = false := by
        by_contra hwork
        obtain ⟨joins, hmem⟩ := h.notified hworker (by
          by_cases hqueue : s.queue = []
          · exact .inr (by simpa [hqueue] using hwork)
          · exact .inl hqueue)
        exact hsilent joins hmem
      rw [held, hworker, hidle.1] at horder
      refine ⟨by simpa using horder, List.eq_nil_iff_forall_not_mem.2 fun call hmem => ?_,
        by simp [hidle.2]⟩
      rw [h.running hidle.2 call hmem] at hmem
      exact hsilent false hmem
  | finished =>
      rw [held, hworker, (h.finished hworker).2] at horder
      refine ⟨by simpa using horder, List.eq_nil_iff_forall_not_mem.2 fun call hmem => ?_,
        fun _ => rfl⟩
      cases call with
      | notifying joins => exact hsilent joins hmem
      | joining =>
          obtain ⟨before, after, hcalls⟩ := List.append_of_mem hmem
          exact hstuck _ (.join hcalls hworker)

theorem accepted_of_goes (h : Goes s s') : s'.accepted = s.accepted := by
  cases h with
  | notify _ =>
      simp only [notify]
      split <;> rfl
  | join _ _ => rfl
  | turn _ =>
      rw [PaneReaper.turn]
      split <;> rfl
  | release _ => rfl

theorem sound_of_chain (h : s.Sound) {run : List (PaneReaper π)}
    (hchain : (s :: run).IsChain Goes) :
    (run.getLastD s).Sound ∧ (run.getLastD s).accepted = s.accepted := by
  induction run generalizing s with
  | nil => exact ⟨h, rfl⟩
  | cons s' run ih =>
      obtain ⟨hgoes, hrest⟩ := List.isChain_cons_cons.1 hchain
      obtain ⟨hsound, haccepted⟩ := ih (h.goes hgoes) hrest
      rw [List.getLastD_cons]
      exact ⟨hsound, haccepted.trans (accepted_of_goes hgoes)⟩

/-- In every interleaving the panes are released in the order in which they were accepted, and
all of them when the worker ends. From any state on the threads by themselves take no more than
`work` steps, and where they end everything is released, every call has returned and the worker
has ended if it was stopped. -/
theorem panes_released (h : Reachable s) :
    s.released ++ s.held ++ s.queue = s.accepted ∧
      (s.worker = .finished → s.released = s.accepted) ∧
      ∀ run : List (PaneReaper π), (s :: run).IsChain Goes →
        run.length ≤ s.work ∧
          ((∀ s', ¬ Goes (run.getLastD s) s') →
            (run.getLastD s).released = s.accepted ∧ (run.getLastD s).calls = [] ∧
              ((run.getLastD s).stop = true → (run.getLastD s).worker = .finished)) := by
  have hsound := sound_of_reachable h
  have horder := hsound.order
  refine ⟨horder, fun hworker => ?_, fun run hchain => ⟨?_, fun hstuck => ?_⟩⟩
  · rw [held, hworker, (hsound.finished hworker).2] at horder
    simpa using horder
  · exact Lib.Runs.length_le_of_decreasing (r := Goes) (f := work)
      (fun _ _ hgoes => work_lt_of_goes hgoes) hchain
  · obtain ⟨hlast, haccepted⟩ := sound_of_chain hsound hchain
    rw [← haccepted]
    exact hlast.done hstuck

/-- A pane is accepted, and then the reaper is shut down. -/
theorem panes_released_one :
    ∃ s : PaneReaper Nat, s = (({} : PaneReaper Nat).enqueue (some 7)).shutdown ∧
      s.released ++ s.held ++ s.queue = [7] := by
  refine ⟨_, rfl, (panes_released ?_).1⟩
  exact (Relation.ReflTransGen.single (.enqueue (some 7))).tail .shutdown

end PaneReaper

end Nazg.Tui
