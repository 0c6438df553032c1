import MarketForge.Model.SafetensorsSound

/-!
# Safetensors files delimit themselves

Of two accepted files of which one begins with the other, the length prefix and the header are
the same, so the records are the same, and the records determine where the data region ends.
-/
namespace MarketForge.Model

/-! ## Records do not depend on the size of the data region -/

/-- The region only bounds a record. -/
theorem parse_fields_region {name : List UInt8} {dtypeValue : JsonValue}
    {shapeValues : List JsonValue} {beginValue endValue : JsonValue} {region other : UInt64}
    {record found : TensorRecord}
    (parsed : parseTensorFields name dtypeValue shapeValues beginValue endValue region =
      .ok record)
    (again : parseTensorFields name dtypeValue shapeValues beginValue endValue other =
      .ok found) : record = found := by
  unfold parseTensorFields at parsed again
  obtain ⟨dtype, typed, parsed⟩ := bind_eq_ok.mp parsed
  obtain ⟨extents, read, parsed⟩ := bind_eq_ok.mp parsed
  obtain ⟨shape, made, parsed⟩ := bind_eq_ok.mp parsed
  obtain ⟨beginAt, begins, parsed⟩ := bind_eq_ok.mp parsed
  obtain ⟨endAt, ends, parsed⟩ := bind_eq_ok.mp parsed
  -- Up to the bound both calls compute the same values.
  simp only [typed, read, made, begins, ends, bind, Except.bind] at parsed again
  split at parsed
  next => cases parsed
  next =>
    split at again
    next => cases again
    next =>
      cases counted : checkedNbytes shape dtype with
      | error status =>
        rw [counted] at parsed
        cases parsed
      | ok expected =>
        rw [counted] at parsed again
        dsimp only at parsed again
        split at parsed
        next => cases parsed
        next sized =>
          rw [if_neg sized] at again
          exact (Except.ok.inj parsed).symm.trans (Except.ok.inj again)

theorem parse_record_region {name : List UInt8} {value : JsonValue} {region other : UInt64}
    {record found : TensorRecord} (parsed : parseTensorRecord name value region = .ok record)
    (again : parseTensorRecord name value other = .ok found) : record = found := by
  unfold parseTensorRecord at parsed again
  split at parsed
  next members =>
    split at parsed
    next => cases parsed
    next named =>
      dsimp only at again
      rw [if_neg named] at again
      split at parsed
      next dtypeValue shapeValues beginValue endValue typed shaped placed =>
        rw [typed, shaped, placed] at again
        dsimp only at again
        split at parsed
        next => cases parsed
        next ranked =>
          rw [if_neg ranked] at again
          exact parse_fields_region parsed again
      next => cases parsed
  next => cases parsed

theorem parse_records_region {members : List (List UInt8 × JsonValue)} {region other : UInt64}
    {before records found : List TensorRecord}
    (parsed : parseRecords region members before = .ok records)
    (again : parseRecords other members before = .ok found) : records = found := by
  induction members generalizing before with
  | nil => exact (Except.ok.inj parsed).symm.trans (Except.ok.inj again)
  | cons member members ih =>
    obtain ⟨name, value⟩ := member
    rw [parseRecords] at parsed again
    split at parsed
    next described =>
      rw [if_pos described] at again
      dsimp only at parsed again
      split at parsed
      next valid =>
        rw [if_pos valid] at again
        exact ih parsed again
      next => cases parsed
    next tensor =>
      rw [if_neg tensor] at again
      split at parsed
      next => cases parsed
      next record read =>
        split at again
        next => cases again
        next same read' =>
          obtain rfl := parse_record_region read read'
          exact ih parsed again

/-- Records that are laid end to end end in one place. -/
theorem coverage_region {ordered : List TensorRecord} {expectedBegin region other : UInt64}
    (covered : (coverageLoop region expectedBegin ordered).isOk = true)
    (again : (coverageLoop other expectedBegin ordered).isOk = true) : region = other := by
  induction ordered generalizing expectedBegin with
  | nil =>
    rw [coverageLoop] at covered again
    split at covered
    next => exact absurd covered (by decide)
    next ends =>
      split at again
      next => exact absurd again (by decide)
      next ends' => exact (not_not.mp ends).symm.trans (not_not.mp ends')
  | cons record rest ih =>
    rw [coverageLoop] at covered again
    split at covered
    next => exact absurd covered (by decide)
    next begins =>
      rw [if_neg begins] at again
      exact ih covered again

/-! ## Accepted files -/

/-- An accepted file that begins with an accepted file is that file. -/
theorem accepted_prefix_eq {bytes longer : ByteSpan} {maximumHeaderBytes : UInt64}
    {metadata found : SafeTensorMetadata} (begins : bytes.data <+: longer.data)
    (accepted : parseSafetensorsMetadata bytes maximumHeaderBytes = .ok metadata)
    (again : parseSafetensorsMetadata longer maximumHeaderBytes = .ok found) :
    bytes.data = longer.data := by
  obtain ⟨members, file⟩ := (parse_metadata_iff _ _ _).mp accepted
  obtain ⟨members', file'⟩ := (parse_metadata_iff _ _ _).mp again
  obtain ⟨rest, whole⟩ := begins
  have long := file.long
  have inside := file.inside
  have lengthPrefix : longer.data.take 8 = bytes.data.take 8 := by
    rw [← whole, List.take_append_of_le_length long]
  have lengths : headerLength longer = headerLength bytes := by
    rw [headerLength, lengthPrefix, headerLength]
  have headers : headerText longer = headerText bytes := by
    have behind : littleEndian (bytes.data.take 8) ≤ (bytes.data.drop 8).length := by
      rw [headerLength] at inside
      rw [List.length_drop]
      omega
    rw [headerText, lengthPrefix, ← whole, List.drop_append_of_le_length long,
      List.take_append_of_le_length behind]
    rfl
  -- The same header holds the same members, hence the same records.
  have json := file'.json
  rw [headers, file.json] at json
  obtain rfl := JsonValue.object.inj (Except.ok.inj json)
  have records := parse_records_region file.records file'.records
  have covered := file'.covered
  rw [← records] at covered
  have regions := congrArg UInt64.toNat (coverage_region file.covered covered)
  rw [region_size_exact, region_size_exact, lengths] at regions
  have inside' := file'.inside
  have same_length : bytes.data.length = longer.data.length := by omega
  exact List.IsPrefix.eq_of_length ⟨rest, whole⟩ same_length

/-- A file is refused. -/
def Rejected (bytes : ByteSpan) (maximumHeaderBytes : UInt64) : Prop :=
  ∃ status, parseSafetensorsMetadata bytes maximumHeaderBytes = .error status

theorem rejected_of_not_accepted {bytes : ByteSpan} {maximumHeaderBytes : UInt64}
    (never : ∀ metadata, parseSafetensorsMetadata bytes maximumHeaderBytes ≠ .ok metadata) :
    Rejected bytes maximumHeaderBytes := by
  cases outcome : parseSafetensorsMetadata bytes maximumHeaderBytes with
  | error status => exact ⟨status, outcome⟩
  | ok metadata => exact absurd outcome (never metadata)

/-- Every strict beginning and every strict extension of an accepted file is refused under the
same limit. -/
theorem safetensors_self_delimiting {bytes : ByteSpan} {maximumHeaderBytes : UInt64}
    {metadata : SafeTensorMetadata}
    (accepted : parseSafetensorsMetadata bytes maximumHeaderBytes = .ok metadata) :
    (∀ shorter : ByteSpan, shorter.data <+: bytes.data → shorter.data ≠ bytes.data →
        Rejected shorter maximumHeaderBytes) ∧
      ∀ longer : ByteSpan, bytes.data <+: longer.data → longer.data ≠ bytes.data →
        Rejected longer maximumHeaderBytes := by
  constructor
  · intro shorter begins strict
    refine rejected_of_not_accepted fun found again => strict ?_
    exact accepted_prefix_eq begins again accepted
  · intro longer begins strict
    refine rejected_of_not_accepted fun found again => strict ?_
    exact (accepted_prefix_eq begins accepted again).symm

/-- A file of two tensors without its last byte, and with one byte more. -/
theorem safetensors_self_delimiting_two_tensors :
    Rejected ⟨twoTensors.data.dropLast, by decide +kernel⟩ 4096 ∧
      Rejected ⟨twoTensors.data ++ [0], by decide +kernel⟩ 4096 := by
  have accepted : parseSafetensorsMetadata twoTensors 4096 = .ok twoTensorRecords := by
    decide +kernel
  obtain ⟨shorter, longer⟩ := safetensors_self_delimiting accepted
  exact ⟨shorter _ (List.dropLast_prefix _) (by decide +kernel),
    longer _ (List.prefix_append _ _) (by decide +kernel)⟩

end MarketForge.Model
