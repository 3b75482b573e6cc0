import HomaSird.Internet.Ipv6ExtensionChain

/-! # The end of the option loop

`ProcessOptions` counts in eight bits. As long as no option that it meets leads past the position
255, every pass goes forward, and an area that consists of options is left behind its last one.
-/

namespace HomaSird.Internet

open Ipv6Header Transition ExtensionHeader

/-- The positions of an area that the options lead to, without any limit to their range. -/
inductive Met (area : List UInt8) (length : Nat) : Nat → Prop
  | start : Met area length 0
  | next {place : Nat} : Met area length place → place < length → ¬ Dropping (area.drop place) →
      Met area length (place + optionSize (area.drop place))

structure Regular (packet : List UInt8) (offset length : Nat) : Prop where
  contained : offset + length ≤ packet.length
  area : offset < 256
  short : length < 256
  byte : ∀ place, Met (packet.drop offset) length place → place < length →
    ¬ Dropping (packet.drop (offset + place)) →
      place + optionSize (packet.drop (offset + place)) < 256 ∧
      Readable (offset + place) (packet.drop (offset + place))

variable {packet : List UInt8} {offset : UInt8} {header : Ipv6Header} {flags : Ipv6Flags}
  {place length : Nat}

theorem processOption_dropping (hplace : place < 256)
    (hdropping : Dropping (packet.drop (offset.toNat + place))) :
    ∃ dropped sent,
      processOption packet offset header (UInt8.ofNat place) flags = .ok (0, dropped, sent) ∧
        dropped.isDropped = true := by
  generalize hbytes : packet.drop (offset.toNat + place) = bytes at hdropping
  cases bytes with
  | nil => exact hdropping.elim
  | cons type tail =>
    obtain ⟨hunk, hdrop⟩ := hdropping
    have hread : readU8 (packet.drop offset.toNat) (UInt8.ofNat place).toNat = .ok type := by
      rw [ofNat_toNat hplace, readU8_drop]
      exact readU8_of_drop hbytes 0
    suffices hdropped : ∃ dropped sent, unknownOption (packet.drop offset.toNat) (UInt8.ofNat place)
        header (offset.toNat + (UInt8.ofNat place).toNat) type flags = .ok (0, dropped, sent) ∧
          dropped.isDropped = true by
      obtain ⟨dropped, sent, hres, hset⟩ := hdropped
      refine ⟨dropped, sent, bind_eq_ok.mpr ⟨type, hread, ?_⟩, hset⟩
      rw [hunk]
      exact hres
    rw [unknownOption, if_neg hdrop]
    split
    · exact ⟨_, _, rfl, rfl⟩
    split
    · exact ⟨_, _, rfl, rfl⟩
    · exact ⟨_, _, rfl, rfl⟩

theorem processOptions_ends {length count : Nat} (hregular : Regular packet offset.toNat length)
    (hmet : Met (packet.drop offset.toNat) length place) (hplace : place < 256)
    (hcnt : 256 - place ≤ count) (hflags : flags.isDropped = false) :
    ∃ result,
      (∀ fuel,
        count + 1 < fuel →
          processOptions packet offset (UInt8.ofNat length) header fuel (UInt8.ofNat place) flags =
            .ok result) ∧
        ∀ options : List OptionField,
          (∀ option ∈ options, option.Formed) →
            packet.drop (offset.toNat + place) =
              encodeOptions options ++ packet.drop (offset.toNat + length) →
            place + (encodeOptions options).length = length → result.2.1.isDropped = false →
            result.1.toNat = length := by
  have hshort := hregular.short
  induction count generalizing place flags with
  | zero => omega
  | succ count ih =>
    have hcompare : UInt8.ofNat length > UInt8.ofNat place ↔ place < length := by
      rw [gt_iff_lt, UInt8.lt_iff_toNat_lt, ofNat_toNat hplace, ofNat_toNat hshort]
    by_cases hmore : place < length
    swap
    · refine ⟨(UInt8.ofNat place, flags, []), fun fuel hfuel => ?_, fun options _ _ hend _ => ?_⟩
      · obtain ⟨fuel, rfl⟩ := Nat.exists_eq_succ_of_ne_zero (Nat.ne_of_gt (Nat.zero_lt_of_lt hfuel))
        rw [processOptions, if_neg fun hboth => hmore (hcompare.mp hboth.1)]
      · rw [ofNat_toNat hplace]
        omega
    have hgo : UInt8.ofNat length > UInt8.ofNat place ∧ (!flags.isDropped) = true :=
      ⟨hcompare.mpr hmore, by rw [hflags]; rfl⟩
    by_cases hdropping : Dropping (packet.drop (offset.toNat + place))
    · obtain ⟨dropped, sent, hstep, hdrop⟩ :=
        @processOption_dropping packet offset header flags place hplace hdropping
      refine ⟨(UInt8.ofNat place + 0, dropped, sent ++ []), fun fuel hfuel => ?_,
        fun _ _ _ _ hkept => absurd hkept (by simp [hdrop])⟩
      obtain ⟨fuel, rfl⟩ := Nat.exists_eq_add_of_le (Nat.le_of_lt_succ (Nat.lt_succ_of_le hfuel))
      rw [show count + 1 + 1 + 1 + fuel = (count + 1 + fuel + 1) + 1 by omega, processOptions,
        if_pos hgo]
      refine bind_eq_ok.mpr ⟨_, hstep, bind_eq_ok.mpr ⟨(UInt8.ofNat place + 0, dropped, []), ?_,
        rfl⟩⟩
      rw [processOptions, if_neg (by simp [hdrop])]
    · obtain ⟨hbyte, hreadable⟩ := hregular.byte place hmet hmore hdropping
      have hstep := @processOption_reads packet offset header flags place hplace hflags hdropping
        hreadable
      have harea : (packet.drop offset.toNat).drop place = packet.drop (offset.toNat + place) :=
        List.drop_drop
      have hpos : 0 < optionSize (packet.drop (offset.toNat + place)) := by
        rw [optionSize.eq_def]
        split
        · split <;> omega
        · exact Nat.one_pos
      have hnext := hmet.next hmore (by rwa [harea])
      rw [harea] at hnext
      obtain ⟨result, hres, hend⟩ := ih hnext hbyte (by omega) hflags
      refine ⟨(result.1, result.2.1, [] ++ result.2.2), fun fuel hfuel => ?_,
        fun options hformed hbytes hlen hkept => ?_⟩
      · obtain ⟨fuel, rfl⟩ := Nat.exists_eq_succ_of_ne_zero (Nat.ne_of_gt (Nat.zero_lt_of_lt hfuel))
        rw [processOptions, if_pos hgo]
        refine bind_eq_ok.mpr ⟨_, hstep, bind_eq_ok.mpr ⟨result, ?_, rfl⟩⟩
        rw [← UInt8.ofNat_add]
        exact hres fuel (by omega)
      · cases options with
        | nil => exact absurd hlen (Nat.ne_of_lt hmore)
        | cons option later =>
          obtain ⟨hhead, hlater⟩ := List.forall_mem_cons.mp hformed
          rw [encodeOptions, List.flatMap_cons, ← encodeOptions, List.append_assoc] at hbytes
          rw [encodeOptions, List.flatMap_cons, ← encodeOptions, List.length_append,
            ← Nat.add_assoc] at hlen
          have hsz := congrArg optionSize hbytes
          rw [optionSize_encode hhead] at hsz
          rw [hsz] at hend
          refine hend later hlater ?_ hlen hkept
          rw [← Nat.add_assoc, ← List.drop_drop, hbytes, List.drop_left]

def OptionsProcessed (packet : List UInt8) (offset : UInt8) (length : Nat) (header : Ipv6Header)
    (flags : Ipv6Flags) : Prop :=
  ∃ result, (∀ fuel, 257 < fuel →
      processOptions packet offset (UInt8.ofNat length) header fuel 0 flags = .ok result) ∧
    ∀ options : List OptionField, (∀ option ∈ options, option.Formed) →
      (packet.drop offset.toNat).take length = encodeOptions options →
      result.2.1.isDropped = false → result.1.toNat = length

theorem processOptions_processed {offset lengthByte : UInt8}
    (hregular :
      Regular packet (offset.toNat + getOptionsOffset) (getLength lengthByte - getOptionsOffset)) :
    OptionsProcessed packet (offset + UInt8.ofNat getOptionsOffset)
      (getLength lengthByte - getOptionsOffset) header flags := by
  have hsum : (offset + UInt8.ofNat getOptionsOffset).toNat = offset.toNat + getOptionsOffset :=
    toNat_add hregular.area
  rw [← hsum] at hregular
  have hcontained := hregular.contained
  by_cases hflags : flags.isDropped = false
  · obtain ⟨result, hres, hend⟩ := @processOptions_ends packet _ header flags 0 _ 256 hregular
      .start (by decide) (Nat.le_refl _) hflags
    refine ⟨result, hres, fun options hformed harea => hend options hformed ?_ ?_⟩
    · rw [Nat.add_zero, ← harea, ← List.drop_drop, List.take_append_drop]
    · rw [Nat.zero_add, ← harea, List.length_take, List.length_drop]
      omega
  · refine ⟨(0, flags, []), fun fuel hfuel => ?_, fun _ _ _ hkept => absurd hkept hflags⟩
    obtain ⟨fuel, rfl⟩ := Nat.exists_eq_succ_of_ne_zero (Nat.ne_of_gt (Nat.zero_lt_of_lt hfuel))
    rw [processOptions, if_neg (by simp [hflags])]

def hopHeader : Ipv6Header := ⟨List.replicate 16 1, List.replicate 16 2, 64, 0, 8⟩

/-- Between two paddings stands an unknown option that is to be skipped. -/
theorem processOptions_processed_three :
    encodeOptions [.pad1, .typed 30 [9, 9], .pad1] = [0, 30, 2, 9, 9, 0] ∧
      OptionsProcessed [59, 0, 0, 30, 2, 9, 9, 0] 2 6 hopHeader {} := by
  have hmet : ∀ place, Met [0, 30, 2, 9, 9, 0] 6 place → place ∈ [0, 1, 5, 6] := by
    intro place hmet
    induction hmet with
    | start => decide
    | @next place _ hless _ ih =>
      simp only [List.mem_cons, List.not_mem_nil, or_false] at ih
      rcases ih with rfl | rfl | rfl | rfl
      · decide
      · decide
      · decide
      · exact absurd hless (Nat.lt_irrefl 6)
  refine ⟨by decide, @processOptions_processed [59, 0, 0, 30, 2, 9, 9, 0] hopHeader {} 0 0
    ⟨by decide, by decide, by decide, fun place hplace hless _ => ?_⟩⟩
  have hplaces := hmet place hplace
  simp only [List.mem_cons, List.not_mem_nil, or_false] at hplaces
  rcases hplaces with rfl | rfl | rfl | rfl
  · exact ⟨by decide, show _ ∧ _ by decide⟩
  · exact ⟨by decide, show 1 ≤ 4 by decide⟩
  · exact ⟨by decide, show _ ∧ _ by decide⟩
  · exact absurd hless (Nat.lt_irrefl 6)

/-- An option to be skipped with the length byte 254 takes no step. -/
theorem not_optionsProcessed_wrapped :
    ¬ OptionsProcessed [59, 0, 30, 254, 0, 0, 0, 0] 2 6 hopHeader {} := by
  rintro ⟨result, hres, -⟩
  have hgoesOn : ∀ fuel, processOptions [59, 0, 30, 254, 0, 0, 0, 0] 2 (UInt8.ofNat 6) hopHeader
      fuel 0 {} = .error .goesOn := by
    intro fuel
    induction fuel with
    | zero => rfl
    | succ fuel ih =>
      have hstep : processOption [59, 0, 30, 254, 0, 0, 0, 0] 2 hopHeader 0 {} =
          .ok (0, {}, []) := rfl
      rw [processOptions, if_pos (by decide), hstep]
      exact congrArg (fun later => later >>= _) ih
  cases (hgoesOn 258).symm.trans (hres 258 (by decide))

end HomaSird.Internet
