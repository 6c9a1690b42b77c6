import DarjaLang.Proofs.Lines

/-!
# Lines of bytes

In UTF-8, a newline is one byte, and no other character has that byte in it.  The same holds of a
carriage return.  So it does not matter whether a text is cut at its newlines and the lines are
encoded, or its bytes are cut and each line is decoded.

* `Lines.encode` are the bytes of some characters, and `cut_encode` says that their lines are the
  lines of the characters.
* `Lines.ofBytes_toUTF8`: the bytes of a text have the lines of the text.
* `Lines.StartsBroken` are bytes whose first line is no text, and `ofBytes_append` says that they
  have the same lines behind a text as alone.
* `Lines.text_or_breaks`: all bytes are a text as a whole or up to a line that is none.
-/

set_option autoImplicit false

namespace DarjaLang

namespace Lines

/-- The bytes of an array, one after the other. -/
theorem toList_bytes (bytes : ByteArray) : bytes.toList = bytes.data.toList := by
  have hloop : ∀ i read, ByteArray.toList.loop bytes i read =
      read.reverse ++ bytes.data.toList.drop i := by
    intro i read
    fun_induction ByteArray.toList.loop bytes i read with
    | case1 i read h ih =>
      have hi : i < bytes.data.toList.length := by simpa using h
      rw [ih, List.drop_eq_getElem_cons hi]
      simp [ByteArray.get!, h]
    | case2 i read h =>
      rw [List.drop_eq_nil_of_le (by simpa using Nat.le_of_not_lt h), List.append_nil]
  rw [ByteArray.toList, hloop, List.reverse_nil, List.nil_append, List.drop_zero]

theorem eq_of_toList_eq {bytes bytes' : ByteArray} (h : bytes.toList = bytes'.toList) :
    bytes = bytes' := by
  rw [toList_bytes, toList_bytes] at h
  exact ByteArray.ext (Array.toList_inj.1 h)

theorem toList_append_bytes (bytes bytes' : ByteArray) :
    (bytes ++ bytes').toList = bytes.toList ++ bytes'.toList := by
  rw [toList_bytes, toList_bytes, toList_bytes, ByteArray.toList_data_append]

/-! ## Characters -/

/-- The bytes of some characters. -/
def encode (cs : List Char) : List UInt8 := cs.flatMap String.utf8EncodeChar

@[simp] theorem encode_nil : encode [] = [] := rfl

@[simp] theorem encode_cons (c : Char) (cs : List Char) :
    encode (c :: cs) = String.utf8EncodeChar c ++ encode cs := List.flatMap_cons

@[simp] theorem encode_append (cs ds : List Char) : encode (cs ++ ds) = encode cs ++ encode ds :=
  List.flatMap_append

theorem toList_toUTF8 (text : String) : text.toUTF8.toList = encode text.toList := by
  rw [toList_bytes, String.toUTF8_eq_toByteArray, ← String.utf8Encode_toList, List.utf8Encode,
    List.toList_data_toByteArray, encode]

theorem toUTF8_ofList (cs : List Char) : (String.ofList cs).toUTF8.toList = encode cs := by
  rw [toList_toUTF8, String.toList_ofList]

/-- The byte of a character that takes only one is in no other character. -/
theorem eq_of_mem_utf8EncodeChar {c d : Char} (hd : d.toNat < 128)
    (h : UInt8.ofNat d.toNat ∈ String.utf8EncodeChar c) : c = d := by
  have hbyte : ∀ n, UInt8.ofNat d.toNat = UInt8.ofNat n → n % 256 = d.toNat := by
    intro n hn
    have := congrArg UInt8.toNat hn
    simp only [UInt8.toNat_ofNat'] at this
    omega
  apply Char.toNat_inj.1
  change _ ∈ (if c.toNat ≤ 0x7f then _ else if c.toNat ≤ 0x7ff then _
    else if c.toNat ≤ 0xffff then _ else _) at h
  -- All bytes of a character that takes several are too large.
  split at h
  · have := hbyte _ (List.mem_singleton.1 h)
    change c.toNat % 256 = _ at this
    omega
  split at h
  · simp only [List.mem_cons, List.not_mem_nil, or_false] at h
    rcases h with h | h <;> have := hbyte _ h <;> omega
  split at h
  · simp only [List.mem_cons, List.not_mem_nil, or_false] at h
    rcases h with h | h | h <;> have := hbyte _ h <;> omega
  · simp only [List.mem_cons, List.not_mem_nil, or_false] at h
    rcases h with h | h | h | h <;> have := hbyte _ h <;> omega

theorem newline_not_mem_utf8EncodeChar {c : Char} (h : c ≠ '\n') :
    10 ∉ String.utf8EncodeChar c := fun hmem =>
  h (eq_of_mem_utf8EncodeChar (d := '\n') (by decide) hmem)

/-! ## Cutting -/

section Cut

variable {α : Type} [DecidableEq α]

/-- A piece without a newline is read on. -/
theorem cut_append {newline carriageReturn : α} {piece : List α} (h : newline ∉ piece)
    (read behind : List α) :
    cut newline carriageReturn read (piece ++ behind) =
      cut newline carriageReturn (piece.reverse ++ read) behind := by
  induction piece generalizing read with
  | nil => rfl
  | cons c piece ih =>
    rw [List.mem_cons, not_or] at h
    rw [List.cons_append, cut, if_neg (Ne.symm h.1), ih h.2, List.reverse_cons, List.append_assoc,
      List.singleton_append]

end Cut

theorem dropReturn_concat {α : Type} [DecidableEq α] (carriageReturn : α) (line : List α) :
    dropReturn carriageReturn (line ++ [carriageReturn]) = line := by
  rw [dropReturn, if_pos List.getLast?_concat, List.dropLast_concat]

/-- The bytes of a line end with a carriage return if the line does. -/
theorem dropReturn_encode (line : List Char) :
    dropReturn 13 (encode line) = encode (dropReturn '\r' line) := by
  rcases List.eq_nil_or_concat line with rfl | ⟨front, c, rfl⟩
  · rfl
  rw [List.concat_eq_append]
  by_cases hc : c = '\r'
  · subst hc
    rw [encode_append, dropReturn_concat]
    exact dropReturn_concat 13 _
  · have hlast : (encode (front ++ [c])).getLast? ≠ some 13 := by
      intro hlast
      have hsome : (String.utf8EncodeChar c).getLast?.isSome = true := by
        simp [String.utf8EncodeChar_ne_nil]
      rw [encode_append, encode_cons, encode_nil, List.append_nil, List.getLast?_append,
        Option.or_of_isSome hsome] at hlast
      exact hc (eq_of_mem_utf8EncodeChar (d := '\r') (by decide) (List.mem_of_getLast? hlast))
    rw [dropReturn, dropReturn, if_neg hlast, if_neg]
    simpa using hc

/-- The lines of the bytes are the bytes of the lines. -/
theorem cut_encode (read cs : List Char) :
    cut 10 13 (encode read.reverse).reverse (encode cs) = (cut '\n' '\r' read cs).map encode := by
  induction cs generalizing read with
  | nil =>
    rcases List.eq_nil_or_concat read.reverse with h | ⟨front, c, h⟩
    · rw [List.reverse_eq_nil_iff.1 h]
      rfl
    · have hne : read.isEmpty = false := by
        rw [← List.isEmpty_reverse, h]
        simp
      rw [encode_nil, cut, cut, hne]
      simp [h, String.utf8EncodeChar_ne_nil]
  | cons c cs ih =>
    by_cases hc : c = '\n'
    · subst hc
      change cut 10 13 _ (10 :: encode cs) = _
      rw [cut, cut, if_pos rfl, if_pos rfl, List.reverse_reverse, dropReturn_encode, List.map_cons]
      exact congrArg _ (ih [])
    · rw [encode_cons, cut_append (newline_not_mem_utf8EncodeChar hc), cut, if_neg hc, ← ih,
        List.reverse_cons, encode_append, List.reverse_append]
      simp

/-! ## Decoding -/

theorem decode_encode (cs : List Char) : decode (encode cs) = .ok (String.ofList cs) := by
  have hbytes : (⟨(encode cs).toArray⟩ : ByteArray) = (String.ofList cs).toByteArray := by
    rw [String.toByteArray_ofList, List.utf8Encode]
    exact ByteArray.ext (Array.toList_inj.1 List.toList_data_toByteArray.symm)
  rw [decode, hbytes, String.fromUTF8?, dif_pos (String.ofList cs).isValidUTF8]
  rfl

/-- A line that can be decoded is the bytes of a text. -/
theorem exists_encode_of_decode {line : List UInt8} {text : String} (h : decode line = .ok text) :
    line = encode text.toList := by
  rw [decode, String.fromUTF8?] at h
  split at h
  · next s hs =>
    split at hs
    · cases hs
      cases h
      rw [← toList_toUTF8, toList_bytes]
      rfl
    · cases hs
  · cases h

/-- The bytes of a text have the lines of the text. -/
theorem ofBytes_toUTF8 (text : String) : ofBytes text.toUTF8 = (ofText text).map .ok := by
  have hcut := cut_encode [] text.toList
  rw [List.reverse_nil, encode_nil, List.reverse_nil] at hcut
  rw [ofBytes, toList_toUTF8, hcut, ofText, List.map_map, List.map_map]
  exact List.map_congr_left fun line _ => decode_encode line

/-! ## Bytes that are no text -/

/-- The first line of the bytes is no text. -/
def StartsBroken (bytes : ByteArray) : Prop := (ofBytes bytes).head? = some (.error notText)

/-- Behind whole lines of text, bytes keep their lines. -/
theorem ofBytes_append {front : String} (h : IsWhole front) (behind : ByteArray) :
    ofBytes (front.toUTF8 ++ behind) = (ofText front).map .ok ++ ofBytes behind := by
  have hbytes : (front.toUTF8 ++ behind).toList = encode front.toList ++ behind.toList := by
    rw [toList_append_bytes, toList_toUTF8]
  rw [← ofBytes_toUTF8, ofBytes, ofBytes, ofBytes, ← List.map_append, hbytes, toList_toUTF8]
  congr 1
  cases hlast : front.toList.getLast? with
  | none =>
    rw [List.getLast?_eq_none_iff.1 hlast]
    rfl
  | some c =>
    obtain ⟨lines, hlines⟩ := List.getLast?_eq_some_iff.1 hlast
    rw [hlines, h c hlast, encode_append, List.append_assoc]
    exact cut_append_newline 10 13 [] (encode lines) behind.toList

theorem eq_notText_of_decode {line : List UInt8} {e : StreamError} (h : decode line = .error e) :
    e = notText := by
  rw [decode] at h
  split at h <;> cases h
  rfl

/-- A carriage return does not matter for whether a line is text. -/
theorem exists_encode_of_decode_dropReturn {line : List UInt8} {text : String}
    (h : decode (dropReturn 13 line) = .ok text) : ∃ cs, line = encode cs := by
  have hbytes := exists_encode_of_decode h
  rw [dropReturn] at hbytes
  split at hbytes
  · next hlast =>
    obtain ⟨front, rfl⟩ := List.getLast?_eq_some_iff.1 hlast
    rw [List.dropLast_concat] at hbytes
    exact ⟨text.toList ++ ['\r'], by rw [encode_append, hbytes]; rfl⟩
  · exact ⟨_, hbytes⟩

/-- The last line of the characters, if there are any, is ended by a newline. -/
theorem isWhole_ofList {cs : List Char} :
    IsWhole (String.ofList cs) ↔ ∀ c, cs.getLast? = some c → c = '\n' := by
  rw [IsWhole, String.toList_ofList]

theorem isWhole_cons_newline {front : List Char} (h : IsWhole (String.ofList front))
    (line : List Char) : IsWhole (String.ofList (line ++ '\n' :: front)) := by
  rw [isWhole_ofList] at h ⊢
  intro c hc
  rw [List.getLast?_append, Option.or_of_isSome (by simp)] at hc
  cases hlast : front.getLast? with
  | none =>
    rw [List.getLast?_eq_none_iff.1 hlast] at hc
    exact (Option.some.inj hc).symm
  | some d =>
    rw [List.getLast?_cons, hlast] at hc
    exact (Option.some.inj hc).symm.trans (h d hlast)

theorem isWhole_nil : IsWhole (String.ofList []) := nofun

/-- Bytes are those of some characters, or they are up to a line that cannot be decoded. -/
theorem encode_or_breaks (bytes : List UInt8) :
    (∃ cs, bytes = encode cs) ∨ ∃ front behind, IsWhole (String.ofList front) ∧
      ((cut 10 13 [] behind).map decode).head? = some (.error notText) ∧
      bytes = encode front ++ behind := by
  by_cases hnewline : 10 ∈ bytes
  · obtain ⟨line, rest, hsplit, hline⟩ := List.eq_append_cons_of_mem hnewline
    have hcut : cut 10 13 [] bytes = dropReturn 13 line :: cut 10 13 [] rest := by
      rw [hsplit, cut_append hline, cut, if_pos rfl, List.append_nil, List.reverse_reverse]
    cases hdecode : decode (dropReturn 13 line) with
    | error e =>
      refine .inr ⟨[], bytes, isWhole_nil, ?_, rfl⟩
      rw [hcut, List.map_cons, hdecode, eq_notText_of_decode hdecode, List.head?_cons]
    | ok text =>
      obtain ⟨cs, rfl⟩ := exists_encode_of_decode_dropReturn hdecode
      rcases encode_or_breaks rest with ⟨ds, rfl⟩ | ⟨front, behind, hfront, hbehind, rfl⟩
      · exact .inl ⟨cs ++ '\n' :: ds, by rw [hsplit, encode_append]; rfl⟩
      · refine .inr ⟨cs ++ '\n' :: front, behind, isWhole_cons_newline hfront cs, hbehind, ?_⟩
        rw [hsplit, encode_append, List.append_assoc]
        rfl
  · cases hdecode : decode bytes with
    | error e =>
      have hne : bytes ≠ [] := by
        rintro rfl
        cases hdecode
      have hcut : cut 10 13 [] bytes = [bytes] := by
        rw [← List.append_nil bytes, cut_append hnewline, cut, if_neg (by simp [hne]),
          List.append_nil, List.append_nil, List.reverse_reverse]
      refine .inr ⟨[], bytes, isWhole_nil, ?_, rfl⟩
      rw [hcut, List.map_singleton, hdecode, eq_notText_of_decode hdecode, List.head?_cons]
    | ok text => exact .inl ⟨_, exists_encode_of_decode hdecode⟩
termination_by bytes.length
decreasing_by
  rw [hsplit, List.length_append, List.length_cons]
  omega

/-- **All bytes are a text, as a whole or up to a line that is none.** -/
theorem text_or_breaks (bytes : ByteArray) :
    (∃ text : String, bytes = text.toUTF8) ∨
      ∃ (front : String) (behind : ByteArray), bytes = front.toUTF8 ++ behind ∧
        IsWhole front ∧ StartsBroken behind := by
  rcases encode_or_breaks bytes.toList with ⟨cs, hcs⟩ | ⟨front, behind, hfront, hbehind, hbytes⟩
  · exact .inl ⟨.ofList cs, eq_of_toList_eq (hcs.trans (toUTF8_ofList cs).symm)⟩
  · have hlist : (⟨behind.toArray⟩ : ByteArray).toList = behind := toList_bytes _
    refine .inr ⟨.ofList front, ⟨behind.toArray⟩, eq_of_toList_eq ?_, hfront, ?_⟩
    · rw [hbytes, toList_append_bytes, hlist, toUTF8_ofList]
    · rw [StartsBroken, ofBytes, hlist, hbehind]

end Lines

end DarjaLang
