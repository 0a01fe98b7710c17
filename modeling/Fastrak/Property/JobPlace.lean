import Fastrak.JobRunner.ManagerEffect

/-!
# Every job has one place

Whatever the manager is told and however often it is polled, every job is at one place
on the way from its channel to Odoo: it is in the queue of one channel at most, running
in the channels below that one and failed in its own channel or not at all. The calls
move jobs as `Follows` says.
-/

namespace Fastrak

namespace JobRunner

open Place ChannelManager

/-- The manager agrees with these places, and with the places that the calls make of
them. -/
def Traced : ChannelManager → (ChannelJob → Place) → List Call → Prop
  | m, place, [] => Sound m.channels place
  | m, place, call :: calls =>
      Sound m.channels place ∧
        ∃ place', Follows m call place place' ∧ Traced (m.step call) place' calls

theorem Managed.traced {m : ChannelManager} {place : ChannelJob → Place} (h : Managed m place)
    (calls : List Call) : Traced m place calls := by
  induction calls generalizing m place with
  | nil => exact h.sound
  | cons call calls ih =>
      obtain ⟨place', h', hfollows⟩ := step_follows h call
      exact ⟨h.sound, place', hfollows, ih h'⟩

/-- A configured manager starts with every job nowhere. -/
theorem jobs_have_one_place {m : ChannelManager} (h : Configured m) (calls : List Call) :
    Traced m (fun _ => idle) calls :=
  h.managed.traced calls

theorem jobs_have_one_place_of_two_channels :
    Traced ((simpleConfigure [{ name := "root".toList, capacity := some 2 },
        { name := "A".toList, capacity := some 1 }] {}).getD {}) (fun _ => idle)
      [.notify ⟨"db", some "A".toList, "A1", 1, 0, 10, none, some .pending⟩, .getJobsToRun 100] :=
  jobs_have_one_place (configured_of_isSome (by decide)) _

end JobRunner

end Fastrak
