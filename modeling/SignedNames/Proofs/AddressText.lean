import Mathlib
import SignedNames.Identity.Address
import SignedNames.Proofs.HexText

/-!
# Addresses read back

An address is read back from its text, whatever the letter case of the digits and of the mark, and
without the mark too. The text that it is written with is in lower case.
-/
namespace SignedNames

namespace Address

theorem parse_of_spellsMarked {a : Address} {s : String} (h : Hex.SpellsMarked s a.block.bytes) :
    parse s = .ok a := by
  rw [parse, Hex.decode_of_spellsMarked h]
  simp

@[simp] theorem parse_text (a : Address) : parse a.text = .ok a :=
  parse_of_spellsMarked (Hex.spellsMarked_encode _)

theorem text_injective : Function.Injective text := by
  intro a b h
  simpa using congrArg parse h

@[simp] theorem lower_text (a : Address) : Text.lower a.text = a.text := by
  refine Text.lower_of_settled fun c hc => ?_
  rw [text, String.toList_append, List.mem_append] at hc
  rcases hc with hc | hc
  · have hmark : "0x".toList = ['0', 'x'] := rfl
    rw [hmark] at hc
    rcases List.mem_pair.1 hc with rfl | rfl
    · exact Hex.settled_digit 0 (by omega)
    · exact ⟨by decide, by decide +kernel, by decide, by decide⟩
  · exact Hex.settled_encode _ c hc

end Address
end SignedNames
