import Mathlib
import SignedNames.Text.LowerCase

/-!
# Lower case twice

No character of a text in lower case has a lower-case partner of its own, so bringing it to lower
case again changes nothing.
-/
namespace SignedNames.Text

namespace CaseRun

def lastImage (a : CaseRun) : Nat := a.image + (a.last - a.first)

def Maps (a : CaseRun) (n : Nat) : Prop := a.first ≤ n ∧ n ≤ a.last ∧ (n - a.first) % a.stride = 0

/-- The images of a run that another run maps, where their ranges overlap. -/
def mapsImage (a b : CaseRun) : Bool :=
  !Nat.blt a.lastImage b.first && !Nat.blt b.last a.image
    && (List.range ((a.last - a.first) / a.stride + 1)).any fun j =>
      let n := a.image + j * a.stride
      Nat.ble b.first n && Nat.ble n b.last && Nat.beq ((n - b.first) % b.stride) 0

lemma mapsImage_of_maps {a b : CaseRun} {j : Nat}
    (hj : j < (a.last - a.first) / a.stride + 1) (h : b.Maps (a.image + j * a.stride)) :
    a.mapsImage b = true := by
  obtain ⟨hfirst, hlast, hstride⟩ := h
  have hsteps : j * a.stride ≤ a.last - a.first :=
    (Nat.mul_le_mul_right _ (Nat.le_of_lt_succ hj)).trans (Nat.div_mul_le_self _ _)
  simp only [mapsImage, lastImage, Bool.and_eq_true, Bool.not_eq_true', List.any_eq_true,
    List.mem_range, Nat.ble_eq, Nat.beq_eq, ← Bool.not_eq_true, Nat.blt_eq]
  exact ⟨⟨by omega, by omega⟩, j, hj, ⟨hfirst, hlast⟩, hstride⟩

end CaseRun

lemma mapsImage_lowerRuns : ∀ a ∈ lowerRuns, ∀ b ∈ lowerRuns, a.mapsImage b = false := by
  have h : (lowerRuns.all fun a => lowerRuns.all fun b => !a.mapsImage b) = true := by
    decide +kernel
  simpa using h

/-- Surrogates and the capital I with a dot are no images. -/
lemma lastImage_lowerRuns : ∀ a ∈ lowerRuns,
    (a.lastImage < 0xd800 ∨ 0xdfff < a.image ∧ a.lastImage < 0x110000) ∧
      (a.lastImage < 0x130 ∨ 0x130 < a.image) := by
  decide +kernel

lemma lowerCode_of_not_maps {n : Nat} (h : ∀ b ∈ lowerRuns, ¬ b.Maps n) : lowerCode n = n := by
  unfold lowerCode
  split
  · rename_i run hfind
    refine if_neg fun hrun => h run (List.mem_of_find?_eq_some hfind) ?_
    have hlast : n ≤ run.last := by simpa using List.find?_some hfind
    exact ⟨hrun.1, hlast, hrun.2⟩
  · rfl

structure SettledCode (n : Nat) : Prop where
  valid : n.isValidChar
  stays : lowerCode n = n
  not_dotted : n ≠ capitalDottedI.toNat
  not_sigma : n ≠ capitalSigma.toNat

def Settled (c : Char) : Prop := SettledCode c.toNat

lemma not_sigma_of_stays {n : Nat} (h : lowerCode n = n) : n ≠ capitalSigma.toNat := by
  rintro rfl
  revert h
  decide +kernel

lemma settledCode_image {a : CaseRun} (ha : a ∈ lowerRuns) {j : Nat}
    (hj : j < (a.last - a.first) / a.stride + 1) : SettledCode (a.image + j * a.stride) := by
  have hsteps : j * a.stride ≤ a.last - a.first :=
    (Nat.mul_le_mul_right _ (Nat.le_of_lt_succ hj)).trans (Nat.div_mul_le_self _ _)
  have hrange := lastImage_lowerRuns a ha
  have hstays : lowerCode (a.image + j * a.stride) = a.image + j * a.stride := by
    refine lowerCode_of_not_maps fun b hb hmaps => ?_
    have hmapsImage := CaseRun.mapsImage_of_maps hj hmaps
    rw [mapsImage_lowerRuns a ha b hb] at hmapsImage
    cases hmapsImage
  have hdotted : capitalDottedI.toNat = 0x130 := rfl
  unfold CaseRun.lastImage at hrange
  refine ⟨?_, hstays, ?_, not_sigma_of_stays hstays⟩
  · unfold Nat.isValidChar
    omega
  · omega

lemma lowerCode_eq_or_settled (n : Nat) : lowerCode n = n ∨ SettledCode (lowerCode n) := by
  unfold lowerCode
  split
  · rename_i run hfind
    split
    · rename_i hrun
      right
      have hmem : run ∈ lowerRuns := List.mem_of_find?_eq_some hfind
      have hlast : n ≤ run.last := by simpa using List.find?_some hfind
      have hdiv : (n - run.first) / run.stride * run.stride = n - run.first :=
        Nat.div_mul_cancel (Nat.dvd_of_mod_eq_zero hrun.2)
      have hsteps : (n - run.first) / run.stride < (run.last - run.first) / run.stride + 1 :=
        Nat.lt_succ_of_le (Nat.div_le_div_right (by omega))
      simpa only [hdiv] using settledCode_image hmem hsteps
    · exact Or.inl rfl
  · exact Or.inl rfl

lemma settled_of_small : Settled 'i' ∧ Settled combiningDot ∧ Settled finalSigma ∧
    Settled smallSigma := by
  refine ⟨⟨?_, ?_, ?_, ?_⟩, ⟨?_, ?_, ?_, ?_⟩, ⟨?_, ?_, ?_, ?_⟩, ⟨?_, ?_, ?_, ?_⟩⟩ <;>
    decide +kernel

lemma lowerChar_of_settled {c : Char} (h : Settled c) : lowerChar c = [c] := by
  have hc : c ≠ capitalDottedI := fun hc => h.not_dotted (congrArg Char.toNat hc)
  rw [lowerChar, if_neg hc, h.stays, Char.ofNat_toNat]

lemma settled_of_mem_lowerChar {c d : Char} (hc : c ≠ capitalSigma) (h : d ∈ lowerChar c) :
    Settled d := by
  unfold lowerChar at h
  split at h
  · rcases List.mem_pair.1 h with rfl | rfl
    · exact settled_of_small.1
    · exact settled_of_small.2.1
  · rename_i hdotted
    rw [List.mem_singleton] at h
    subst h
    rcases lowerCode_eq_or_settled c.toNat with heq | hsettled
    · rw [heq, Char.ofNat_toNat]
      have htoNat {d : Char} (hd : c ≠ d) : c.toNat ≠ d.toNat := fun h => hd (Char.toNat_inj.1 h)
      exact ⟨c.valid, heq, htoNat hdotted, htoNat hc⟩
    · have htoNat : (Char.ofNat (lowerCode c.toNat)).toNat = lowerCode c.toNat := by
        rw [Char.ofNat, dif_pos hsettled.valid]
        rfl
      rw [Settled, htoNat]
      exact hsettled

lemma settled_lowerAfter (before cs : List Char) : ∀ d ∈ lowerAfter before cs, Settled d := by
  induction cs generalizing before with
  | nil => simp [lowerAfter]
  | cons c after ih =>
    intro d hd
    rw [lowerAfter, List.mem_append] at hd
    rcases hd with hd | hd
    · split at hd
      · rw [List.mem_singleton] at hd
        subst hd
        unfold lowerSigma
        split
        · exact settled_of_small.2.2.1
        · exact settled_of_small.2.2.2
      · rename_i hsigma
        exact settled_of_mem_lowerChar hsigma hd
    · exact ih _ d hd

lemma lowerAfter_of_settled {cs : List Char} (h : ∀ c ∈ cs, Settled c) (before : List Char) :
    lowerAfter before cs = cs := by
  induction cs generalizing before with
  | nil => rfl
  | cons c after ih =>
    obtain ⟨hc, hafter⟩ := List.forall_mem_cons.1 h
    have hsigma : c ≠ capitalSigma := fun hsigma => hc.not_sigma (congrArg Char.toNat hsigma)
    rw [lowerAfter, if_neg hsigma, lowerChar_of_settled hc, ih hafter]
    rfl

theorem lower_of_settled {s : String} (h : ∀ c ∈ s.toList, Settled c) : lower s = s := by
  rw [lower, lowerChars, lowerAfter_of_settled h, String.ofList_toList]

@[simp] theorem lower_lower (s : String) : lower (lower s) = lower s := by
  refine lower_of_settled fun c hc => ?_
  rw [lower, String.toList_ofList] at hc
  exact settled_lowerAfter [] s.toList c hc

end SignedNames.Text
