import Mathlib.Data.List.Forall2
import Mathlib.Data.List.TakeWhile
import Orchestra.Text.Blank
import Orchestra.Text.Utf8

/-!
# Bytes, characters and lines

What is read from a stream is said here about its bytes, without any reader.

* `Text.utf8` — a text as bytes;
* `Utf8.first_codes`, `Utf8.codes_of_first` — the first character that is read is the one of which these are the
  bytes;
* `Utf8.decode_eq_ok_iff` — bytes are read as the text that they are, and as no other;
* `Lines.ofBytes` — a stream cut at its line feeds; `Lines.Means` — a line that has been read, or is no text;
* `Lines.read_means` — a stream is read line after line;
* `Text.trim_eq_iff` — a text without the blanks around it.
-/

namespace Orchestra.Text

/-- A text as bytes. -/
def utf8 (s : String) : List UInt8 := s.toUTF8.data.toList

/-- Characters as bytes. -/
def encoded (cs : List Char) : List UInt8 := cs.flatMap String.utf8EncodeChar

theorem utf8_ofList (cs : List Char) : utf8 (String.ofList cs) = encoded cs := by
  rw [utf8, String.toUTF8_eq_toByteArray, String.toByteArray_ofList]
  exact List.toList_data_toByteArray

theorem utf8_eq_encoded (s : String) : utf8 s = encoded s.toList := by
  rw [← utf8_ofList, String.ofList_toList]

namespace Utf8

/-! ### One character -/

/-- The bytes of the character of a number. -/
def codes (v : Nat) : List Nat :=
  if v < 0x80 then [v]
  else if v < 0x800 then [v / 0x40 + 0xc0, v % 0x40 + 0x80]
  else if v < 0x10000 then [v / 0x1000 + 0xe0, v / 0x40 % 0x40 + 0x80, v % 0x40 + 0x80]
  else [v / 0x40000 + 0xf0, v / 0x1000 % 0x40 + 0x80, v / 0x40 % 0x40 + 0x80, v % 0x40 + 0x80]

theorem utf8EncodeChar_eq (c : Char) : (String.utf8EncodeChar c).map UInt8.toNat = codes c.toNat := by
  have hvalid : c.toNat.isValidChar := c.valid
  have hbyte : ∀ n, n < 256 → (UInt8.ofNat n).toNat = n := fun n hn => by
    rw [UInt8.toNat_ofNat', Nat.mod_eq_of_lt hn]
  generalize hv : c.toNat = v at hvalid
  have hval : c.val.toNat = v := hv
  unfold String.utf8EncodeChar codes
  rw [hval]
  by_cases h₁ : v < 0x80
  · rw [if_pos (by omega), if_pos h₁, List.map_singleton, hbyte v (by omega)]
  rw [if_neg (by omega), if_neg h₁]
  by_cases h₂ : v < 0x800
  · rw [if_pos (by omega), if_pos h₂, List.map_cons, List.map_singleton, hbyte _ (by omega), hbyte _ (by omega)]
    congr 1
    omega
  rw [if_neg (by omega), if_neg h₂]
  by_cases h₃ : v < 0x10000
  · rw [if_pos (by omega), if_pos h₃, List.map_cons, List.map_cons, List.map_singleton, hbyte _ (by omega),
      hbyte _ (by omega), hbyte _ (by omega)]
    congr 1
    omega
  · rw [if_neg (by omega), if_neg h₃, List.map_cons, List.map_cons, List.map_cons, List.map_singleton,
      hbyte _ (by omega), hbyte _ (by omega), hbyte _ (by omega), hbyte _ (by omega)]
    congr 1
    omega

/-- The first of two bytes. -/
theorem lead?_two {a : Nat} (ha : 0xc2 ≤ a) (ha' : a ≤ 0xdf) : lead? a = some (1, 0x80, 0xbf) :=
  if_pos ⟨ha, ha'⟩

/-- The first of three bytes.  What the second may be keeps the shorter forms and the surrogates out. -/
theorem lead?_three {v : Nat} (hv : v.isValidChar) (h₂ : 0x800 ≤ v) (h₃ : v < 0x10000) :
    ∃ low high, lead? (v / 0x1000 + 0xe0) = some (2, low, high) ∧ low ≤ v / 0x40 % 0x40 + 0x80 ∧
      v / 0x40 % 0x40 + 0x80 ≤ high := by
  unfold lead?
  rw [if_neg (by omega)]
  split
  · exact ⟨_, _, rfl, by omega, by omega⟩
  split
  · exact ⟨_, _, rfl, by omega, by omega⟩
  · rw [if_pos (by omega)]
    exact ⟨_, _, rfl, by omega, by omega⟩

/-- The first of four bytes.  What the second may be keeps out the shorter forms, and what is no character. -/
theorem lead?_four {v : Nat} (hv : v.isValidChar) (h₃ : 0x10000 ≤ v) :
    ∃ low high, lead? (v / 0x40000 + 0xf0) = some (3, low, high) ∧ low ≤ v / 0x1000 % 0x40 + 0x80 ∧
      v / 0x1000 % 0x40 + 0x80 ≤ high := by
  unfold lead?
  rw [if_neg (by omega), if_neg (by omega), if_neg (by omega), if_neg (by omega)]
  split
  · exact ⟨_, _, rfl, by omega, by omega⟩
  split
  · exact ⟨_, _, rfl, by omega, by omega⟩
  · rw [if_pos (by omega)]
    exact ⟨_, _, rfl, by omega, by omega⟩

/-- **A character is read where it is written.** -/
theorem first_codes {v : Nat} (hv : v.isValidChar) (rest : List Nat) :
    first (codes v ++ rest) = .ok (Char.ofNat v, (codes v).length - 1) := by
  have htail : ∀ n, isTail (n % 0x40 + 0x80) = true := fun n => by
    rw [isTail, Bool.and_eq_true, decide_eq_true_iff, decide_eq_true_iff]
    omega
  unfold codes
  by_cases h₁ : v < 0x80
  · rw [if_pos h₁]
    exact if_pos h₁
  rw [if_neg h₁]
  by_cases h₂ : v < 0x800
  · rw [if_pos h₂]
    dsimp only [List.cons_append, List.nil_append, first]
    rw [if_neg (by omega), lead?_two (by omega) (by omega)]
    dsimp only
    rw [if_neg (by omega), if_pos rfl]
    congr 3
    omega
  rw [if_neg h₂]
  by_cases h₃ : v < 0x10000
  · obtain ⟨low, high, hlead, hlow, hhigh⟩ := lead?_three hv (by omega) h₃
    rw [if_pos h₃]
    dsimp only [List.cons_append, List.nil_append, first]
    rw [if_neg (by omega), hlead]
    dsimp only
    rw [if_neg (by omega), if_neg (by decide), htail]
    rw [if_neg (by decide), if_pos rfl]
    congr 3
    omega
  · obtain ⟨low, high, hlead, hlow, hhigh⟩ := lead?_four hv (by omega)
    rw [if_neg h₃]
    dsimp only [List.cons_append, List.nil_append, first]
    rw [if_neg (by omega), hlead]
    dsimp only
    rw [if_neg (by omega), if_neg (by decide), htail]
    rw [if_neg (by decide), if_neg (by decide), htail]
    rw [if_neg (by decide)]
    congr 3
    omega

/-- What a first byte says of the second. -/
theorem lead?_cases {a more low high : Nat} (h : lead? a = some (more, low, high)) :
    0x80 ≤ low ∧ high ≤ 0xbf ∧ (more = 1 ∧ 0xc2 ≤ a ∧ a ≤ 0xdf ∨
      more = 2 ∧ 0xe0 ≤ a ∧ a ≤ 0xef ∧ (a = 0xe0 → 0xa0 ≤ low) ∧ (a = 0xed → high ≤ 0x9f) ∨
      more = 3 ∧ 0xf0 ≤ a ∧ a ≤ 0xf4 ∧ (a = 0xf0 → 0x90 ≤ low) ∧ (a = 0xf4 → high ≤ 0x8f)) := by
  unfold lead? at h
  split_ifs at h <;> cases h <;> omega

/-- **What is read as a character is written as that.** -/
theorem codes_of_first {bytes : List Nat} {c : Char} {more : Nat} (h : first bytes = .ok (c, more)) :
    ∃ rest, bytes = codes c.toNat ++ rest ∧ (codes c.toNat).length = more + 1 := by
  have hvalue : ∀ v, v.isValidChar → (Char.ofNat v).toNat = v := fun v hv => by
    rw [Char.ofNat, dif_pos hv]
    rfl
  have htail : ∀ {n}, ¬ (!isTail n) = true → 0x80 ≤ n ∧ n ≤ 0xbf := fun {n} hn => by
    simpa [isTail] using hn
  unfold first at h
  split at h
  · cases h
  next a rest =>
  split at h
  next h₁ =>
    cases h
    refine ⟨rest, ?_⟩
    rw [hvalue a (by omega), codes, if_pos h₁]
    exact ⟨rfl, rfl⟩
  next h₁ =>
  split at h
  · cases h
  next more' low high hlead =>
  obtain ⟨hlow, hhigh, hlength⟩ := lead?_cases hlead
  split at h
  · cases h
  next b rest =>
  split at h
  · cases h
  next hb =>
  split at h
  next h₂ =>
    cases h
    refine ⟨rest, ?_⟩
    rw [hvalue _ (by omega), codes, if_neg (by omega), if_pos (by omega)]
    refine ⟨?_, rfl⟩
    congr 1
    · omega
    · congr 1
      omega
  next h₂ =>
  split at h
  · cases h
  next c' rest =>
  split at h
  · cases h
  next hc =>
  have hc := htail hc
  split at h
  next h₃ =>
    cases h
    refine ⟨rest, ?_⟩
    rw [hvalue _ (by omega), codes, if_neg (by omega), if_neg (by omega), if_pos (by omega)]
    refine ⟨?_, rfl⟩
    simp only [List.cons_append, List.nil_append, List.cons.injEq, and_true]
    omega
  next h₃ =>
  split at h
  · cases h
  next d rest =>
  split at h
  · cases h
  next hd =>
  have hd := htail hd
  cases h
  refine ⟨rest, ?_⟩
  rw [hvalue _ (by omega), codes, if_neg (by omega), if_neg (by omega), if_neg (by omega)]
  refine ⟨?_, rfl⟩
  simp only [List.cons_append, List.nil_append, List.cons.injEq, and_true]
  omega

/-! ### Any number of characters -/

theorem codes_ne_nil (v : Nat) : codes v ≠ [] := by
  unfold codes
  split_ifs <;> exact List.cons_ne_nil _ _

/-- Reading a character and then the rest. -/
theorem decodeFrom_codes (index : Nat) (c : Char) (rest : List Nat) :
    decodeFrom index (codes c.toNat ++ rest)
      = (decodeFrom (index + ((codes c.toNat).length - 1) + 1) rest).map (c :: ·) := by
  have hpos : 0 < (codes c.toNat).length := List.length_pos_iff.2 (codes_ne_nil _)
  have hvalid : c.toNat.isValidChar := c.valid
  rw [decodeFrom, dif_neg (List.append_ne_nil_of_left_ne_nil (codes_ne_nil _) rest), first_codes hvalid,
    Char.ofNat_toNat]
  dsimp only
  rw [Nat.sub_add_cancel hpos, List.drop_left]

theorem decodeFrom_eq_ok_iff {index : Nat} {bytes : List Nat} {cs : List Char} :
    decodeFrom index bytes = .ok cs ↔ bytes = cs.flatMap fun c => codes c.toNat := by
  constructor
  · intro h
    induction cs generalizing index bytes with
    | nil =>
      unfold decodeFrom at h
      split at h
      next hnil => exact hnil
      next =>
      split at h
      · cases h
      next c more _ =>
        cases hrest : decodeFrom (index + more + 1) (bytes.drop (more + 1)) <;> rw [hrest] at h <;> cases h
    | cons c cs ih =>
      unfold decodeFrom at h
      split at h
      · cases h
      next =>
      split at h
      · cases h
      next c' more hfirst =>
        obtain ⟨rest, rfl, hlength⟩ := codes_of_first hfirst
        rw [← hlength, List.drop_left] at h
        cases hrest : decodeFrom (index + more + 1) rest with
        | error flaw =>
          rw [hrest] at h
          cases h
        | ok cs' =>
          rw [hrest] at h
          cases h
          rw [List.flatMap_cons, ← ih hrest]
  · rintro rfl
    induction cs generalizing index with
    | nil => rw [List.flatMap_nil, decodeFrom, dif_pos rfl]
    | cons c cs ih =>
      rw [List.flatMap_cons, decodeFrom_codes, ih]
      rfl

/-- **Bytes are read as characters if and only if they are these characters in UTF-8.** -/
theorem decode_eq_ok_iff {bytes : List UInt8} {cs : List Char} :
    decode (bytes.map UInt8.toNat) = .ok cs ↔ encoded cs = bytes := by
  have hcodes : (cs.flatMap fun c => codes c.toNat) = (encoded cs).map UInt8.toNat := by
    rw [encoded, List.map_flatMap]
    exact List.flatMap_congr fun c _ => (utf8EncodeChar_eq c).symm
  rw [decode, decodeFrom_eq_ok_iff, hcodes]
  have hinjective : Function.Injective (List.map UInt8.toNat) := List.map_injective_iff.2 fun _ _ => UInt8.toNat_inj.1
  exact ⟨fun h => (hinjective h).symm, fun h => h ▸ rfl⟩

/-- A byte that stands for a character by itself, at the end of characters. -/
theorem encoded_concat {cs : List Char} {bytes : List UInt8} {b : UInt8} (hb : b.toNat < 0x80)
    (h : encoded cs = bytes ++ [b]) : ∃ ds, cs = ds ++ [Char.ofNat b.toNat] ∧ encoded ds = bytes := by
  rcases List.eq_nil_or_concat cs with rfl | ⟨ds, c, rfl⟩
  · exact absurd h.symm (List.append_ne_nil_of_right_ne_nil _ (List.cons_ne_nil _ _))
  have hsplit : encoded ds ++ String.utf8EncodeChar c = bytes ++ [b] := by
    rw [← h, encoded, encoded, List.concat_eq_append, List.flatMap_append, List.flatMap_singleton]
  -- The last byte of a character that is written in several bytes is none that stands by itself.
  have hlast : (codes c.toNat).getLast? = some b.toNat := by
    have hne : String.utf8EncodeChar c ≠ [] := fun hnil => codes_ne_nil c.toNat (by rw [← utf8EncodeChar_eq, hnil]; rfl)
    have hbyte : (String.utf8EncodeChar c).getLast? = some b := by
      have hboth := congrArg List.getLast? hsplit
      rwa [List.getLast?_append_of_ne_nil _ hne, List.getLast?_concat] at hboth
    rw [← utf8EncodeChar_eq, List.getLast?_map, hbyte]
    rfl
  have hone : c.toNat = b.toNat := by
    unfold codes at hlast
    split_ifs at hlast <;> simp at hlast <;> omega
  have hcode : String.utf8EncodeChar c = [b] := by
    have hcodes := utf8EncodeChar_eq c
    rw [hone, codes, if_pos hb] at hcodes
    exact List.map_injective_iff.2 (fun _ _ => UInt8.toNat_inj.1) hcodes
  rw [hcode] at hsplit
  refine ⟨ds, ?_, List.append_cancel_right hsplit⟩
  rw [← hone, Char.ofNat_toNat, List.concat_eq_append]

end Utf8

/-- Different texts have different bytes. -/
theorem utf8_injective : Function.Injective utf8 := by
  intro s s' h
  rw [utf8_eq_encoded, utf8_eq_encoded] at h
  have hread := (Utf8.decode_eq_ok_iff.2 h).symm.trans (Utf8.decode_eq_ok_iff.2 rfl)
  exact String.toList_inj.1 (Except.ok.inj hread)

/-! ### Lines -/

namespace Lines

/-- A line without a carriage return at its end. -/
def withoutReturn (line : List UInt8) : List UInt8 := if line.getLast? = some 13 then line.dropLast else line

/-- The lines of a stream as bytes: the pieces between its line feeds, and the last of them only if it is not
empty. -/
def ofBytes (stream : List UInt8) : List (List UInt8) :=
  (stream.splitOn 10).dropLast.map withoutReturn ++ [(stream.splitOn 10).getLastD []].filter (· ≠ [])

/-- A line that has been read is the text of which these are the bytes; or they are no text. -/
def Means (bytes : List UInt8) : Except Utf8.Flaw String → Prop
  | .ok s => utf8 s = bytes
  | .error _ => ∀ s, utf8 s ≠ bytes

/-- One line as it is read. -/
def text (line : List Nat) : Except Utf8.Flaw String :=
  (Utf8.decode line).map fun cs => String.ofList (withoutEnd cs)

/-- **A stream is cut at its line feeds.** -/
theorem cut_eq (stream : List UInt8) : cut (stream.map UInt8.toNat)
    = (stream.splitOn 10).dropLast.map (fun line => (line ++ [10]).map UInt8.toNat) ++
      ([(stream.splitOn 10).getLastD []].filter (· ≠ [])).map (List.map UInt8.toNat) := by
  induction stream with
  | nil => rfl
  | cons b rest ih =>
    obtain ⟨line, lines, hpieces⟩ := List.exists_cons_of_ne_nil (List.splitOn_ne_nil 10 rest)
    rw [List.splitOn_cons_eq_if_modifyHead]
    rw [hpieces] at ih ⊢
    rw [List.map_cons, cut]
    by_cases hb : b = 10
    · subst hb
      rw [if_pos (by decide), ih, if_pos (beq_self_eq_true _)]
      rfl
    · have hcode : ¬ b.toNat = 10 := fun h => hb (UInt8.toNat_inj.1 h)
      rw [if_neg hcode, if_neg (by simpa using hb), ih]
      cases lines with
      | nil => by_cases hline : line = [] <;> simp [hline]
      | cons next lines => simp

theorem not_mem_of_mem_splitOn {stream line : List UInt8} (h : line ∈ stream.splitOn 10) : 10 ∉ line := by
  induction stream generalizing line with
  | nil =>
    obtain rfl := List.mem_singleton.1 h
    exact List.not_mem_nil
  | cons b rest ih =>
    obtain ⟨first, others, hpieces⟩ := List.exists_cons_of_ne_nil (List.splitOn_ne_nil 10 rest)
    rw [List.splitOn_cons_eq_if_modifyHead] at h
    rw [hpieces] at h ih
    split at h
    · rcases List.mem_cons.1 h with rfl | hmem
      · exact List.not_mem_nil
      · exact ih hmem
    next hb =>
      rcases List.mem_cons.1 h with rfl | hmem
      · rintro hfeed
        rcases List.mem_cons.1 hfeed with rfl | hfeed
        · exact hb rfl
        · exact ih List.mem_cons_self hfeed
      · exact ih (List.mem_cons_of_mem _ hmem)

/-- What is taken off the end of a line is taken off its bytes. -/
theorem encoded_withoutEnd (cs : List Char) :
    encoded (withoutEnd (cs ++ ['\n'])) = withoutReturn (encoded cs) := by
  rcases List.eq_nil_or_concat cs with rfl | ⟨ds, c, rfl⟩
  · rfl
  rw [List.concat_eq_append]
  by_cases hc : c = '\r'
  · subst hc
    have hreturn : encoded (ds ++ ['\r']) = encoded ds ++ [13] := List.flatMap_append
    rw [hreturn, withoutReturn, if_pos List.getLast?_concat, List.dropLast_concat, withoutEnd]
    simp
  · have hstays : withoutEnd (ds ++ [c] ++ ['\n']) = ds ++ [c] := by
      rw [withoutEnd]
      simp [hc]
    rw [hstays, withoutReturn, if_neg]
    intro hreturn
    obtain ⟨bytes, hbytes⟩ := List.getLast?_eq_some_iff.1 hreturn
    obtain ⟨es, hes, -⟩ := Utf8.encoded_concat (by decide) hbytes
    exact hc (List.append_inj_right' hes rfl |> List.singleton_inj.1)

/-- A line that ends with a line feed is what its bytes say. -/
theorem means_ended (line : List UInt8) : Means (withoutReturn line) (text ((line ++ [10]).map UInt8.toNat)) := by
  rw [text]
  cases hdecode : Utf8.decode ((line ++ [10]).map UInt8.toNat) with
  | ok cs =>
    obtain ⟨ds, rfl, rfl⟩ := Utf8.encoded_concat (by decide) (Utf8.decode_eq_ok_iff.1 hdecode)
    exact (utf8_ofList _).trans (encoded_withoutEnd ds)
  | error flaw =>
    intro s hs
    -- With what has been taken off at its end, the text would have been read.
    have hline : ∃ ds, encoded ds = line := by
      rw [utf8_eq_encoded, withoutReturn] at hs
      split at hs
      next hreturn =>
        refine ⟨s.toList ++ ['\r'], ?_⟩
        obtain ⟨bytes, rfl⟩ := List.getLast?_eq_some_iff.1 hreturn
        rw [List.dropLast_concat] at hs
        rw [encoded, List.flatMap_append, ← encoded, hs]
        rfl
      next => exact ⟨s.toList, hs⟩
    obtain ⟨ds, rfl⟩ := hline
    have hread := Utf8.decode_eq_ok_iff.2 (List.flatMap_append : encoded (ds ++ ['\n']) = encoded ds ++ [10])
    cases hdecode.symm.trans hread

theorem withoutEnd_of_not_mem {cs : List Char} (h : '\n' ∉ cs) : withoutEnd cs = cs := by
  have hreverse : '\n' ∉ cs.reverse := fun hmem => h (List.mem_reverse.1 hmem)
  unfold withoutEnd
  split
  next hend => exact absurd (hend ▸ List.mem_cons_self) hreverse
  next hend => exact absurd (hend ▸ List.mem_cons_self) hreverse
  next => rfl

/-- So is one that ends with the stream. -/
theorem means_unended {line : List UInt8} (h : 10 ∉ line) : Means line (text (line.map UInt8.toNat)) := by
  rw [text]
  cases hdecode : Utf8.decode (line.map UInt8.toNat) with
  | ok cs =>
    obtain rfl := Utf8.decode_eq_ok_iff.1 hdecode
    have hfeed : '\n' ∉ cs := fun hmem => h (List.mem_flatMap.2 ⟨_, hmem, List.mem_singleton.2 rfl⟩)
    rw [Except.map, withoutEnd_of_not_mem hfeed]
    exact utf8_ofList cs
  | error flaw =>
    intro s hs
    cases hdecode.symm.trans (Utf8.decode_eq_ok_iff.2 ((utf8_eq_encoded s).symm.trans hs))

/-- **The lines of a stream are read one after another**, each as what its bytes say. -/
theorem read_means (stream : List UInt8) : List.Forall₂ Means (ofBytes stream) (read (stream.map UInt8.toNat)) := by
  have hread : read (stream.map UInt8.toNat) = (cut (stream.map UInt8.toNat)).map text := rfl
  rw [hread, cut_eq, List.map_append, List.map_map, List.map_map, ofBytes]
  refine List.rel_append ?_ ?_
  · rw [List.forall₂_map_left_iff, List.forall₂_map_right_iff]
    exact List.forall₂_same.2 fun line _ => means_ended line
  · rw [List.forall₂_map_right_iff]
    have hlast : (stream.splitOn 10).getLastD [] ∈ stream.splitOn 10 := by
      rw [List.getLastD_eq_getLast?, List.getLast?_eq_getLast_of_ne_nil (List.splitOn_ne_nil 10 stream)]
      exact List.getLast_mem _
    refine List.forall₂_same.2 fun line hline => ?_
    rw [List.mem_singleton.1 (List.mem_of_mem_filter hline)]
    exact means_unended (not_mem_of_mem_splitOn hlast)

end Lines

/-! ### Blanks -/

/-- Nothing is left of blanks before something else. -/
theorem dropWhile_blanks {before word : List Char} (hbefore : ∀ c ∈ before, isBlank c = true)
    (hfirst : ∀ c ∈ word.head?, isBlank c = false) : (before ++ word).dropWhile isBlank = word := by
  rw [List.dropWhile_append_of_pos hbefore]
  cases word with
  | nil => rfl
  | cons c rest => exact List.dropWhile_cons_of_neg (by rw [hfirst c rfl]; decide)

/-- **A text is what is left of another one without the blanks around it.** -/
theorem trim_eq_iff {s word : String} (hword : word.toList ≠ []) (hfirst : ∀ c ∈ word.toList.head?, isBlank c = false)
    (hlast : ∀ c ∈ word.toList.getLast?, isBlank c = false) :
    trim s = word ↔ ∃ before after, (∀ c ∈ before ++ after, isBlank c = true) ∧
      s.toList = before ++ word.toList ++ after := by
  have htrim : trim s = word ↔ ((s.toList.dropWhile isBlank).reverse.dropWhile isBlank).reverse = word.toList := by
    rw [← String.ofList_inj, String.ofList_toList]
    rfl
  rw [htrim]
  constructor
  · intro h
    refine ⟨s.toList.takeWhile isBlank, ((s.toList.dropWhile isBlank).reverse.takeWhile isBlank).reverse,
      fun c hc => ?_, ?_⟩
    · rcases List.mem_append.1 hc with hc | hc
      · exact List.mem_takeWhile_imp hc
      · exact List.mem_takeWhile_imp (List.mem_reverse.1 hc)
    · rw [← h, List.append_assoc, ← List.reverse_append, List.takeWhile_append_dropWhile, List.reverse_reverse,
        List.takeWhile_append_dropWhile]
  · rintro ⟨before, after, hblank, heq⟩
    have hfront : (s.toList.dropWhile isBlank) = word.toList ++ after := by
      rw [heq, List.append_assoc]
      refine dropWhile_blanks (fun c hc => hblank c (List.mem_append_left _ hc)) fun c hc => hfirst c ?_
      rwa [List.head?_append_of_ne_nil _ hword] at hc
    rw [hfront, List.reverse_append, dropWhile_blanks, List.reverse_reverse]
    · exact fun c hc => hblank c (List.mem_append_right _ (List.mem_reverse.1 hc))
    · exact fun c hc => hlast c (by rwa [List.head?_reverse] at hc)

end Orchestra.Text
