import MiMic.Flash.K64fIap
import MiMic.Flash.OnchipFlashWriter

/-!
# Runs of configuration updates

Both boards take any number of updates, each with ROM calls that come out in any way. What makes
an update atomic is said by the `Sound` of its board.
-/
namespace MiMic.Flash

open Verif NorFlash

/-- In every run whose updates are all sound, every update is atomic, on either board. -/
theorem updates_atomic (image : Lpc.Image) (p : Cells × Bool) :
    (image.board.watched.Reaches (fun p u => Lpc.Sound image p.1 u) p → p.2 = true) ∧
      (K64f.board.watched.Reaches (fun p u => K64f.Sound p.1 u) p → p.2 = true) := by
  refine ⟨fun h => ?_, fun h => ?_⟩
  · exact @Board.watched_good image.board (Lpc.FactoryIntact image) (Lpc.Sound image)
      (fun m hm _ => hm) (fun m u hinv hok => Lpc.atomic_of_sound hinv hok) p h
  · exact @Board.watched_good K64f.board (fun _ => True) K64f.Sound (fun _ _ => trivial)
      (fun m u _ hok => ⟨trivial, K64f.atomic_of_sound hok⟩) p h

/-- A program with its default at 4096. -/
def sampleImage : Lpc.Image := ⟨4096, by decide⟩

/-- The memory behind the download. -/
def downloaded : Cells := patch (fun _ => 0xff) 4096 72 fun x => factoryDefault.byte (x - 4096)

theorem downloaded_init : sampleImage.board.watched.init (downloaded, true) := by
  refine ⟨readConfigulation_bytes fun k hk => ?_, rfl⟩
  show patch (fun _ => 0xff) 4096 72 (fun x => factoryDefault.byte (x - 4096)) (4096 + k) = _
  rw [patch_inside (Nat.le_add_right _ _) (Nat.add_lt_add_left hk _), Nat.add_sub_cancel_left]

theorem blank_init : K64f.board.watched.init (fun _ => 0xff, true) := ⟨rfl, rfl⟩

def sampleConfig : MiMicConfigulation :=
  { factoryDefault with
    ipv4AddrNet := 0xc0a80063
    httpPort := 8080 }

theorem sound_nil (image : Lpc.Image) (m : Cells) (c : MiMicConfigulation) :
    Lpc.Sound image m ⟨c, []⟩ := by
  unfold Lpc.Sound
  split
  · exact Or.inl (succeeds_nil 4)
  · exact fun _ _ => succeeds_nil 6

/-- The configuration of a user is in force. -/
theorem updates_atomic_sample :
    ∃ p, sampleImage.board.watched.Reaches (fun p u => Lpc.Sound sampleImage p.1 u) p ∧
      sampleImage.loadFromFlash p.1 = sampleConfig ∧ p.2 = true := by
  have hstep : sampleImage.board.watched.step (downloaded, true) ⟨sampleConfig, []⟩ =
      some ((sampleImage.board.run downloaded ⟨sampleConfig, []⟩).1,
        true && decide (sampleImage.board.Atomic downloaded ⟨sampleConfig, []⟩)) := rfl
  have hinit : sampleImage.board.watched.Reaches (fun p u => Lpc.Sound sampleImage p.1 u)
      (downloaded, true) := .init downloaded_init
  have hreach := hinit.step (sound_nil _ _ _) hstep
  exact ⟨_, hreach, by decide +kernel, (updates_atomic _ _).1 hreach⟩

/-- A second update whose write fails leaves an erased configuration in force, a first one whose
flag is not written returns TRUE without effect, and a second phrase that fails leaves a
configuration that is partly written. -/
theorem not_updates_atomic :
    (∃ p, sampleImage.board.watched.Reaches System.anyStep p ∧
      decide ((sampleImage.loadFromFlash p.1).httpPort = 0xffff ∧ p.2 = false) = true) ∧
    (∃ p, sampleImage.board.watched.Reaches System.anyStep p ∧
      decide (sampleImage.loadFromFlash p.1 = factoryDefault ∧ p.2 = false) = true) ∧
    ∃ p, K64f.board.watched.Reaches System.anyStep p ∧
      decide ((K64f.loadFromFlash p.1).httpPort = 0xffff ∧ p.2 = false) = true := by
  refine ⟨?_, ?_, ?_⟩
  · exact System.exists_of_run downloaded_init (show (sampleImage.board.watched.run (downloaded, true)
      [⟨sampleConfig, []⟩, ⟨sampleConfig, [.success, .success, .failure fun _ => 0]⟩]).any
        (fun p => decide ((sampleImage.loadFromFlash p.1).httpPort = 0xffff ∧ p.2 = false)) = true
          by decide +kernel)
  · exact System.exists_of_run downloaded_init (show (sampleImage.board.watched.run (downloaded, true)
      [⟨sampleConfig, [.success, .success, .success, .success, .failure fun _ => 0]⟩]).any
        (fun p => decide (sampleImage.loadFromFlash p.1 = factoryDefault ∧ p.2 = false)) = true
          by decide +kernel)
  · exact System.exists_of_run blank_init (show (K64f.board.watched.run (fun _ => 0xff, true)
      [⟨sampleConfig, [.success, .success, .success, .failure fun _ => 0xff]⟩]).any
        (fun p => decide ((K64f.loadFromFlash p.1).httpPort = 0xffff ∧ p.2 = false)) = true
          by decide +kernel)

end MiMic.Flash
