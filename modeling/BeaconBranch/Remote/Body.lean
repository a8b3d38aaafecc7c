import BeaconBranch.Remote.Exchange

/-!
Replies of web interfaces: how much of an error's text is shown, and the `data` entry that every
JSON reply has to have. Main statement: what is shown of a body that is UTF-8 text.
-/

namespace BeaconBranch.Remote

/-- The part of a text that error messages show: its first 200 characters. -/
def excerpt (text : String) : String := CodePoints.text ((CodePoints.ofText text).take 200)

/-- Of a body that is UTF-8 text, these are its first 200 characters. -/
theorem excerpt_documented (depth : Nat) (status : Int) (body : ByteArray) :
    excerpt (Answer.documented depth status body).text =
      CodePoints.ofPlain (String.ofList ((Utf8.decode body).toList.take 200)) := by
  have row : CodePoints.ofText (CodePoints.ofPlain (Utf8.decode body)) =
      (Utf8.decode body).toList.map Char.toNat := by
    refine CodePoints.ofText_text _ fun p mem => ?_
    obtain ⟨c, -, rfl⟩ := List.mem_map.mp mem
    rcases c.valid with low | high
    · exact Nat.lt_trans low (by decide)
    · exact high.2
  rw [excerpt, Answer.documented, row, CodePoints.ofPlain, String.toList_ofList, List.map_take]

/-- The `data` entry of a JSON reply. -/
def data? : Value → Option Value
  | .object es => Value.lookup "data" es
  | _ => none

/-- A base address without the slashes at its end. -/
def trimSlashes (url : String) : String :=
  String.ofList (url.toList.reverse.dropWhile (· == '/')).reverse

/-- The seconds to wait: those asked for, or the usual ones if none or zero are asked for. -/
def timeoutOr (usual : Number) : Option Number → Number
  | some t => if t.isZero then usual else t
  | none => usual

/-- The fault of a failed exchange as it came. A missing key is reported in quotes. -/
def rawFault (kind : FaultKind) (text : String) : Fault :=
  .remote kind (if kind = .missingKey then Value.quoted text else text)

end BeaconBranch.Remote
