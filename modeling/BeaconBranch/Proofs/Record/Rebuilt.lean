import BeaconBranch.Proofs.Record.Entries
import BeaconBranch.Proofs.State.Existence

/-!
Records from their own documents. A document shows bytes as marked text, and what a marked text
means is told by the name of its field alone. Main statement: the documents of five of the schemas
are read as the records that they show, and those of the two others, which have byte fields on no
list of names, are refused whatever they show.
-/

namespace BeaconBranch

open Outcome

namespace Record

/-- A field that is on the list of byte fields if it holds byte strings. -/
def isListed (f : Field) : Bool := !f.kind.isBytes || byteFields.contains f.name

/-- A schema whose names are different keys that mean themselves. Byte fields do not have names of
numbers, and have no default. -/
structure SelfNamed (s : Schema) : Prop where
  distinct : (s.fields.map (·.name)).Nodup
  own : ∀ f ∈ s.fields, fieldName f.name = f.name
  apart : ∀ f ∈ s.fields, f.kind.isBytes = true → numberFields.contains f.name = false
  given : ∀ f ∈ s.fields, f.kind.isBytes = true → f.default?.isNone = true

theorem selfNamed_of_mem_all : ∀ s ∈ Schema.all, SelfNamed s := by
  have distinct : ∀ s ∈ Schema.all, (s.fields.map (·.name)).Nodup := by decide
  have snake : ∀ s ∈ Schema.all, ∀ f ∈ s.fields,
      SnakeCase.isSnake f.name = true ∧ f.name ≠ "parent_block_root" := by decide
  have apart : ∀ s ∈ Schema.all, ∀ f ∈ s.fields, f.kind.isBytes = true →
      numberFields.contains f.name = false := by decide
  have given : ∀ s ∈ Schema.all, ∀ f ∈ s.fields, f.kind.isBytes = true →
      f.default?.isNone = true := by decide
  refine fun s known => ⟨distinct s known, fun f mem => ?_, apart s known, given s known⟩
  exact fieldName_of_isSnake (snake s known f mem).1 (snake s known f mem).2

variable {s : Schema} {r : Record} {f : Field} {v : Value}

/-! ### Fields on the list -/

/-- What is shown of a listed field's value means this value. -/
theorem means_showValue (own : fieldName f.name = f.name) (listed : isListed f = true)
    (holds : f.kind.Holds v) : Means (f.name, showValue v) (f.name, v) := by
  rcases FieldKind.shape_of_holds holds with ⟨isBytes, b, rfl⟩ | ⟨-, ⟨n, rfl⟩ | ⟨b, rfl⟩⟩
  · rw [isListed, isBytes, Bool.not_true, Bool.false_or] at listed
    exact means_marked own listed b
  · exact ⟨own, rfl⟩
  · exact ⟨own, rfl⟩

/-- A record whose fields are listed comes back from its document. -/
theorem ofJson?_toValue (named : SelfNamed s) (listed : ∀ f ∈ s.fields, isListed f = true)
    (fits : r.Fits s) : ofJson? s r.toValue = .ok r := by
  obtain ⟨rfl, holds⟩ := fits
  have onList : ∀ f ∈ r.schema.fields, fieldName f.name = f.name ∧ isListed f = true :=
    fun f mem => ⟨named.own f mem, listed f mem⟩
  have each := ((List.forall₂_and_left _ _).mpr ⟨onList, holds⟩).imp
    fun f v ⟨⟨own, listed⟩, holds⟩ => means_showValue own listed holds
  exact ofJson?_of_means named.distinct holds.length_eq.symm (forall₂_means_map each) (.refl _)

/-! ### Fields on no list -/

/-- What is shown of a value is legible, unless it is bytes under the name of a number. -/
theorem legible_showValue {name : String} (holds : f.kind.Holds v)
    (apart : f.kind.isBytes = true → numberFields.contains name = false) :
    Legible name (showValue v) := by
  rcases FieldKind.shape_of_holds holds with ⟨isBytes, b, rfl⟩ | ⟨-, ⟨n, rfl⟩ | ⟨b, rfl⟩⟩
  · rw [showValue, Legible, Hex.markedDigits?_marked]
    refine ⟨Hex.allDigits_digits b, fun isNumber => ?_⟩
    rw [apart isBytes] at isNumber
    cases isNumber
  · trivial
  · trivial

/-- Marked bytes under a name on neither list are passed over. -/
theorem meaning?_marked {name : String} (own : fieldName name = name)
    (notBytes : byteFields.contains name = false) (notNumber : numberFields.contains name = false)
    (b : ByteArray) : meaning? (name, .text (Hex.marked b)) = none := by
  rw [meaning?, own, readValue?, Hex.markedDigits?_marked]
  dsimp only
  rw [readMarked?, Hex.wholeDigits?_digits, ok_bind, notBytes, notNumber]
  rfl

/-- A document gives no value to a byte field that is not listed. -/
theorem valueFrom?_toEntries_of_unlisted (named : SelfNamed s) (mem : f ∈ s.fields)
    (unlisted : isListed f = false) (fits : r.Fits s) : valueFrom? r.toEntries f = none := by
  obtain ⟨isBytes, notBytes⟩ : f.kind.isBytes = true ∧ byteFields.contains f.name = false := by
    simpa [isListed] using unlisted
  have silent : lastMeaning? f.name r.toEntries = none := by
    refine lastMeaning?_eq_none fun e inDocument means => ?_
    obtain ⟨g, inSchema, v, holds, rfl⟩ := exists_of_mem_zip fits inDocument
    -- Names are different, so only the entry of the field itself has its name.
    obtain rfl : g = f := List.inj_on_of_nodup_map named.distinct inSchema mem
      ((named.own g inSchema).symm.trans means)
    rcases FieldKind.shape_of_holds holds with ⟨-, b, rfl⟩ | ⟨other, -⟩
    · exact meaning?_marked (named.own g mem) notBytes (named.apart g mem isBytes) b
    · rw [isBytes] at other
      cases other
  rw [valueFrom?, silent, Option.none_or, Option.isNone_iff_eq_none.mp (named.given f mem isBytes)]

/-- A record with a byte field that is not listed does not come back from its document. -/
theorem ofJson?_toValue_of_unlisted (named : SelfNamed s)
    (unlisted : ∃ f ∈ s.fields, isListed f = false) (fits : r.Fits s) :
    ofJson? s r.toValue = .error .wrongType := by
  obtain ⟨f, mem, unlisted⟩ := unlisted
  refine ofJson?_of_incomplete (fun e inDocument => ?_)
    ⟨f, mem, valueFrom?_toEntries_of_unlisted named mem unlisted fits⟩
  obtain ⟨g, inSchema, v, holds, rfl⟩ := exists_of_mem_zip fits inDocument
  rw [named.own g inSchema]
  exact legible_showValue holds (named.apart g inSchema)

/-! ### The records of the state -/

/-- Five of the schemas read every record back from its document, two read none back. -/
theorem documents_read_back (r : Record) :
    (∀ s ∈ [.fork, .blockHeader, .checkpoint, .eth1Data, .validator], r.Fits s →
      ofJson? s r.toValue = .ok r) ∧
    ∀ s ∈ [.historicalSummary, .payloadHeader], r.Fits s →
      ofJson? s r.toValue = .error .wrongType := by
  constructor
  · intro s mem fits
    have known : s ∈ Schema.all := by
      revert s
      simp [Schema.all]
    have listed : ∀ s ∈ ([.fork, .blockHeader, .checkpoint, .eth1Data, .validator] : List Schema),
        ∀ f ∈ s.fields, isListed f = true := by decide
    exact ofJson?_toValue (selfNamed_of_mem_all s known) (listed s mem) fits
  · intro s mem fits
    have known : s ∈ Schema.all := by
      revert s
      simp [Schema.all]
    have unlisted : ∀ s ∈ ([.historicalSummary, .payloadHeader] : List Schema),
        ∃ f ∈ s.fields, isListed f = false := by decide
    exact ofJson?_toValue_of_unlisted (selfNamed_of_mem_all s known) (unlisted s mem) fits

/-- A payload header with a value in every field. -/
def namedPayload : Record := ⟨.payloadHeader,
  [.bytes (filled 32 1), .bytes (filled 20 2), .bytes (filled 32 3), .bytes (filled 32 4),
    .bytes (filled 256 5), .bytes (filled 32 6), .int 7, .int 30000000, .int 21000,
    .int 1700000000, .bytes (filled 3 103), .int 8, .bytes (filled 32 9), .bytes (filled 32 10),
    .bytes (filled 32 11), .int 12, .int 13]⟩

theorem fits_namedPayload : namedPayload.Fits .payloadHeader := by
  have room : twoTo 64 = 18446744073709551616 := by decide +kernel
  have wide : (8 : Int) < twoTo 256 := by decide +kernel
  refine ⟨rfl, ?_⟩
  simp [Schema.payloadHeader, namedPayload, FieldKind.Holds, room, wide]

theorem documents_read_back_samples :
    ofJson? .validator slashedValidator.toValue = .ok slashedValidator ∧
    ofJson? .checkpoint (zero .checkpoint).toValue = .ok (zero .checkpoint) ∧
    ofJson? .payloadHeader namedPayload.toValue = .error .wrongType :=
  ⟨(documents_read_back _).1 .validator (by simp) fits_slashedValidator,
    (documents_read_back _).1 .checkpoint (by simp) (fits_zero _),
    (documents_read_back _).2 .payloadHeader (by simp) fits_namedPayload⟩

/-- The summary of two empty roots does not come back from its document. -/
theorem empty_summary_refused :
    (zero .historicalSummary).Fits .historicalSummary ∧
    ofJson? .historicalSummary (zero .historicalSummary).toValue = .error .wrongType := by
  have known : Schema.historicalSummary ∈ Schema.all := by simp [Schema.all]
  exact ⟨fits_zero _, ofJson?_toValue_of_unlisted (selfNamed_of_mem_all _ known) (by decide)
    (fits_zero _)⟩

end Record

end BeaconBranch
