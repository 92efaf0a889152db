import LogTemplate.Proofs.Delimiter.Boundary

/-!
The searches for delimiters, byte by byte. All bytes of a character above 127 are above 127 too, so
none of them is taken for a delimiter or for a backslash, and the searches pass over it. They find
the same offsets in the bytes of a text as the cuts of the text give.
-/

namespace LogTemplate.Delimiter.Bytes

/-- The byte of a character below 128. -/
def ascii (c : Char) : UInt8 :=
  UInt8.ofNat c.toNat

/-- The number of bytes before the first `quote` that no backslash stands right before. The first
byte after the quote is the one read last. -/
def literalEnd (quote : UInt8) : UInt8 → List UInt8 → Option Nat
  | _, [] => none
  | previous, b :: bytes =>
      if b = quote ∧ previous ≠ ascii '\\' then some 0
      else (literalEnd quote b bytes).map (· + 1)

/-- The offset of the first quote from `start` on that no backslash stands right before. The byte
before the first one is taken to be `previous`. -/
def quotedFrom (previous : UInt8) (bytes : List UInt8) (start : Nat) : Option Nat :=
  (literalEnd (ascii '"') ((bytes.take start).getLast?.getD previous) (bytes.drop start)).map
    (start + ·)

def endOfQuoted (bytes : List UInt8) (start : Nat) : Option Nat :=
  quotedFrom (ascii '"') bytes start

def depthAfter (depth : Nat) (b : UInt8) : Nat :=
  if b = ascii '(' then depth + 1 else if b = ascii ')' then depth - 1 else depth

/-- The number of bytes before the first closing parenthesis that brings the depth to zero. -/
def closingEnd : Nat → List UInt8 → Option Nat
  | _, [] => none
  | depth, b :: bytes =>
      let depth := depthAfter depth b
      if b = ascii ')' ∧ depth = 0 then some 0 else (closingEnd depth bytes).map (· + 1)

def endOfGroup (bytes : List UInt8) : Option Nat :=
  if bytes.head? = some (ascii '(') then closingEnd 0 bytes else none

/-- The number of bytes before the first `target` outside literals and outside the groups opened so
far. -/
def topLevelEnd (target : UInt8) : Nat → List UInt8 → Option Nat
  | _, [] => none
  | depth, b :: bytes =>
      if b = target ∧ depth = 0 then some 0
      else if b = ascii '"' ∨ b = ascii '\'' then
        match literalEnd b b bytes with
        | none => none
        | some closing =>
            (topLevelEnd target depth (bytes.drop (closing + 1))).map (· + (closing + 2))
      else (topLevelEnd target (depthAfter depth b) bytes).map (· + 1)
termination_by _ bytes => bytes.length
decreasing_by
  · rw [List.length_drop, List.length_cons]
    omega
  · exact Nat.lt_succ_self _

def findTopLevel (bytes : List UInt8) (target : UInt8) : Option Nat :=
  topLevelEnd target 0 bytes

section Ascii

variable {b : UInt8} {c d : Char}

theorem toNat_ascii (hc : c.toNat < 0x80) : (ascii c).toNat = c.toNat :=
  UInt8.toNat_ofNat_of_lt' (Nat.lt_trans hc (by decide))

theorem ascii_inj (hc : c.toNat < 0x80) (hd : d.toNat < 0x80) : ascii c = ascii d ↔ c = d := by
  rw [← UInt8.toNat_inj, toNat_ascii hc, toNat_ascii hd, Char.toNat_inj]

theorem ne_ascii (hb : 0x80 ≤ b.toNat) (hc : c.toNat < 0x80) : b ≠ ascii c := by
  rintro rfl
  rw [toNat_ascii hc] at hb
  omega

theorem ne_of_le_toNat (hc : 0x80 ≤ c.toNat) (hd : d.toNat < 0x80) : c ≠ d := by
  rintro rfl
  omega

theorem toBytes_cons (c : Char) (cs : Text) :
    Text.toBytes (c :: cs) = String.utf8EncodeChar c ++ Text.toBytes cs :=
  List.flatMap_cons

theorem toBytes_cons_of_lt (hc : c.toNat < 0x80) (cs : Text) :
    Text.toBytes (c :: cs) = ascii c :: Text.toBytes cs := by
  rw [toBytes_cons, Utf8.utf8EncodeChar_of_lt hc]
  rfl

end Ascii

/-- A search goes on behind a byte above 127 as if it were not there. -/
def Passes (search : List UInt8 → Option Nat) : Prop :=
  ∀ b bytes, 0x80 ≤ b.toNat → search (b :: bytes) = (search bytes).map (· + 1)

section Passes

variable {search : List UInt8 → Option Nat} {bytes : List UInt8} {c : Char}

theorem Passes.append (h : Passes search) (hbytes : ∀ b ∈ bytes, 0x80 ≤ b.toNat)
    (rest : List UInt8) : search (bytes ++ rest) = (search rest).map (· + bytes.length) := by
  induction bytes with
  | nil => simp
  | cons b bytes ih =>
      rw [List.forall_mem_cons] at hbytes
      rw [List.cons_append, h b _ hbytes.1, ih hbytes.2, Option.map_map]
      rfl

theorem Passes.toBytes_cons (h : Passes search) (hc : 0x80 ≤ c.toNat) (cs : Text) :
    search (Text.toBytes (c :: cs)) = (search (Text.toBytes cs)).map (· + c.utf8Size) := by
  rw [Bytes.toBytes_cons, h.append (Utf8.le_toNat_of_mem_utf8EncodeChar hc),
    String.length_utf8EncodeChar]

theorem map_byteSize_cons (c : Char) (cut : Option (Text × Text)) :
    (cut.map fun parts => Text.byteSize parts.1).map (· + c.utf8Size) =
      (cut.map fun (before, rest) => (c :: before, rest)).map fun parts =>
        Text.byteSize parts.1 := by
  rw [Option.map_map, Option.map_map]
  congr 1
  funext parts
  exact Nat.add_comm _ _

theorem map_byteSize_cons_of_lt (hc : c.toNat < 0x80) (cut : Option (Text × Text)) :
    (cut.map fun parts => Text.byteSize parts.1).map (· + 1) =
      (cut.map fun (before, rest) => (c :: before, rest)).map fun parts =>
        Text.byteSize parts.1 := by
  rw [← map_byteSize_cons, utf8Size_of_lt hc]

end Passes

section Literal

variable {quote previous previous' : UInt8} {bytes : List UInt8} {c p q : Char}

theorem literalEnd_congr (h : previous = ascii '\\' ↔ previous' = ascii '\\')
    (bytes : List UInt8) : literalEnd quote previous bytes = literalEnd quote previous' bytes := by
  cases bytes with
  | nil => rfl
  | cons b bytes => simp only [literalEnd, Ne, h]

theorem passes_literalEnd (hquote : quote.toNat < 0x80) (hprevious : previous ≠ ascii '\\') :
    Passes (literalEnd quote previous) := by
  intro b bytes hb
  have hback : b ≠ ascii '\\' := ne_ascii hb (by decide)
  have hne : b ≠ quote := by
    rintro rfl
    omega
  rw [literalEnd, if_neg (fun h => hne h.1), literalEnd_congr (iff_of_false hback hprevious)]

theorem literalEnd_toBytes_cons (hq : q.toNat < 0x80) (hc : 0x80 ≤ c.toNat)
    (hprevious' : previous' ≠ ascii '\\') (cs : Text) :
    literalEnd (ascii q) previous (Text.toBytes (c :: cs)) =
      (literalEnd (ascii q) previous' (Text.toBytes cs)).map (· + c.utf8Size) := by
  rw [← (passes_literalEnd (by rwa [toNat_ascii hq]) hprevious').toBytes_cons hc, toBytes_cons]
  cases hbytes : String.utf8EncodeChar c with
  | nil => simp at hbytes
  | cons b bytes =>
      have hb : b ≠ ascii q := by
        apply ne_ascii _ hq
        apply Utf8.le_toNat_of_mem_utf8EncodeChar hc
        simp [hbytes]
      simp only [List.cons_append, literalEnd, hb, false_and, if_false]

theorem literalEnd_toBytes (hq : q.toNat < 0x80) (hp : previous = ascii '\\' ↔ p = '\\')
    (cs : Text) :
    literalEnd (ascii q) previous (Text.toBytes cs) =
      (splitLiteral q p cs).map fun parts => Text.byteSize parts.1 := by
  induction cs generalizing previous p with
  | nil => rfl
  | cons c cs ih =>
      rw [splitLiteral]
      rcases Nat.lt_or_ge c.toNat 0x80 with hc | hc
      · rw [toBytes_cons_of_lt hc, literalEnd, ih (ascii_inj hc (by decide))]
        simp only [ascii_inj hc hq, Ne, hp]
        split
        · rfl
        · exact map_byteSize_cons_of_lt hc _
      · have hback : c ≠ '\\' := ne_of_le_toNat hc (by decide)
        have hquote : ascii '"' ≠ ascii '\\' := by decide
        rw [literalEnd_toBytes_cons hq hc hquote, ih (iff_of_false hquote hback),
          if_neg (fun h => ne_of_le_toNat hc hq h.1)]
        exact map_byteSize_cons c _

theorem quotedFrom_append (bytes rest : List UInt8) (n : Nat) :
    quotedFrom previous (bytes ++ rest) (bytes.length + n) =
      (quotedFrom (bytes.getLast?.getD previous) rest n).map (bytes.length + ·) := by
  rw [quotedFrom, quotedFrom, List.take_length_add_append, List.drop_length_add_append,
    List.getLast?_append, Option.map_map]
  congr 1
  · funext i
    exact Nat.add_assoc _ _ _
  · cases (rest.take n).getLast? <;> rfl

theorem getLast?_getD_ne (hbytes : ∀ b ∈ bytes, 0x80 ≤ b.toNat) (hne : bytes ≠ []) :
    bytes.getLast?.getD previous ≠ ascii '\\' := by
  rw [List.getLast?_eq_some_getLast hne]
  exact ne_ascii (hbytes _ (List.getLast_mem hne)) (by decide)

theorem getLast?_utf8EncodeChar (c : Char) (previous : UInt8) :
    (String.utf8EncodeChar c).getLast?.getD previous = ascii '\\' ↔ c = '\\' := by
  rcases Nat.lt_or_ge c.toNat 0x80 with hc | hc
  · rw [Utf8.utf8EncodeChar_of_lt hc]
    exact ascii_inj hc (by decide)
  · have hne : String.utf8EncodeChar c ≠ [] := by simp
    exact iff_of_false (getLast?_getD_ne (Utf8.le_toNat_of_mem_utf8EncodeChar hc) hne)
      (ne_of_le_toNat hc (by decide))

theorem quotedFrom_of_lt {start : Nat} (hbytes : ∀ b ∈ bytes, 0x80 ≤ b.toNat) (hpos : 0 < start)
    (hlt : start < bytes.length) (hprevious' : previous' ≠ ascii '\\') (rest : List UInt8) :
    quotedFrom previous (bytes ++ rest) start =
      (literalEnd (ascii '"') previous' rest).map (bytes.length + ·) := by
  have htake : bytes.take start ≠ [] := by
    apply List.ne_nil_of_length_pos
    rw [List.length_take]
    omega
  have hlast : (bytes.take start).getLast?.getD previous ≠ ascii '\\' :=
    getLast?_getD_ne (fun b hb => hbytes b (List.mem_of_mem_take hb)) htake
  have hpasses := passes_literalEnd (by decide : (ascii '"').toNat < 0x80) hprevious'
  have hle : start ≤ bytes.length := Nat.le_of_lt hlt
  rw [quotedFrom, List.take_append_of_le_length hle, List.drop_append_of_le_length hle,
    literalEnd_congr (iff_of_false hlast hprevious'),
    hpasses.append (fun b hb => hbytes b (List.mem_of_mem_drop hb)), Option.map_map]
  congr 1
  funext i
  rw [Function.comp_apply, List.length_drop]
  omega

/-- From `start` on, the byte before the search is one of the character before it. -/
theorem quotedFrom_toBytes (hp : previous = ascii '\\' ↔ p = '\\') (start : Nat)
    (text : Text) :
    quotedFrom previous text.toBytes start =
      (splitLiteral '"' ((text.splitFrom start).1.getLast?.getD p) (text.splitFrom start).2).map
        fun parts => (text.splitFrom start).1.byteSize + Text.byteSize parts.1 := by
  induction text generalizing start previous p with
  | nil => cases start <;> rfl
  | cons c cs ih =>
      cases start with
      | zero =>
          simp only [quotedFrom, Text.splitFrom, List.take_zero, List.drop_zero, List.getLast?_nil,
            Option.getD_none, literalEnd_toBytes (by decide : '"'.toNat < 0x80) hp, Option.map_map]
          rfl
      | succ n =>
          have hsplit : Text.splitFrom (n + 1) (c :: cs) =
              (c :: (Text.splitFrom (n + 1 - c.utf8Size) cs).1,
                (Text.splitFrom (n + 1 - c.utf8Size) cs).2) := rfl
          rw [hsplit, List.getLast?_cons, Option.getD_some, toBytes_cons]
          rcases Nat.lt_or_ge (n + 1) c.utf8Size with hlt | hge
          · have hc : 0x80 ≤ c.toNat := by
              by_contra hc
              rw [utf8Size_of_lt (Nat.lt_of_not_le hc)] at hlt
              omega
            have hquote : ascii '"' ≠ ascii '\\' := by decide
            have hback : c ≠ '\\' := ne_of_le_toNat hc (by decide)
            rw [Nat.sub_eq_zero_of_le (Nat.le_of_lt hlt), Text.splitFrom,
              quotedFrom_of_lt (Utf8.le_toNat_of_mem_utf8EncodeChar hc) n.succ_pos
                (by rwa [String.length_utf8EncodeChar]) hquote,
              literalEnd_toBytes (by decide) (iff_of_false hquote hback), Option.map_map,
              String.length_utf8EncodeChar]
            rfl
          · obtain ⟨k, hk⟩ := Nat.exists_eq_add_of_le hge
            rw [hk, Nat.add_sub_cancel_left]
            nth_rewrite 1 [← String.length_utf8EncodeChar]
            rw [quotedFrom_append, ih (getLast?_utf8EncodeChar c previous), Option.map_map]
            congr 1
            funext parts
            rw [Function.comp_apply, String.length_utf8EncodeChar, Text.byteSize_cons,
              Nat.add_assoc]

theorem endOfQuoted_toBytes (text : Text) (start : Nat) :
    endOfQuoted text.toBytes start = Delimiter.endOfQuoted text start :=
  quotedFrom_toBytes (iff_of_false (by decide) (by decide)) start text

end Literal

section Group

theorem depthAfter_ascii {c : Char} (hc : c.toNat < 0x80) (depth : Nat) :
    depthAfter depth (ascii c) = Delimiter.depthAfter depth c := by
  simp only [depthAfter, Delimiter.depthAfter, ascii_inj hc (by decide : '('.toNat < 0x80),
    ascii_inj hc (by decide : ')'.toNat < 0x80)]

theorem depthAfter_of_le {b : UInt8} (hb : 0x80 ≤ b.toNat) (depth : Nat) :
    depthAfter depth b = depth := by
  rw [depthAfter, if_neg (ne_ascii hb (by decide)), if_neg (ne_ascii hb (by decide))]

theorem depthAfter_of_le_toNat {c : Char} (hc : 0x80 ≤ c.toNat) (depth : Nat) :
    Delimiter.depthAfter depth c = depth := by
  rw [Delimiter.depthAfter, if_neg (ne_of_le_toNat hc (by decide)),
    if_neg (ne_of_le_toNat hc (by decide))]

theorem passes_closingEnd (depth : Nat) : Passes (closingEnd depth) := by
  intro b bytes hb
  have hclose : b ≠ ascii ')' := ne_ascii hb (by decide)
  simp only [closingEnd, depthAfter_of_le hb, hclose, false_and, if_false]

theorem closingEnd_toBytes (depth : Nat) (cs : Text) :
    (closingEnd depth (Text.toBytes cs)).map (· + 1) =
      (splitClosing depth cs).map fun parts => Text.byteSize parts.1 := by
  induction cs generalizing depth with
  | nil => rfl
  | cons c cs ih =>
      rw [splitClosing]
      rcases Nat.lt_or_ge c.toNat 0x80 with hc | hc
      · rw [toBytes_cons_of_lt hc, closingEnd, depthAfter_ascii hc]
        simp only [ascii_inj hc (by decide : ')'.toNat < 0x80)]
        split
        · simp [utf8Size_of_lt hc]
        · rw [ih]
          exact map_byteSize_cons_of_lt hc _
      · have hclose : c ≠ ')' := ne_of_le_toNat hc (by decide)
        rw [(passes_closingEnd depth).toBytes_cons hc]
        simp only [depthAfter_of_le_toNat hc, hclose, false_and, if_false]
        rw [← map_byteSize_cons, ← ih, Option.map_map, Option.map_map]
        congr 1
        funext i
        exact Nat.add_right_comm _ _ _

theorem head?_toBytes_eq_iff {c : Char} (hc : c.toNat < 0x80) (text : Text) :
    text.toBytes.head? = some (ascii c) ↔ text.head? = some c := by
  cases text with
  | nil => simp [Text.toBytes]
  | cons d cs =>
      rcases Nat.lt_or_ge d.toNat 0x80 with hd | hd
      · rw [toBytes_cons_of_lt hd, List.head?_cons, List.head?_cons, Option.some_inj,
          Option.some_inj, ascii_inj hd hc]
      · have hne : String.utf8EncodeChar d ≠ [] := by simp
        rw [toBytes_cons, List.head?_append_of_ne_nil _ hne, List.head?_eq_some_head hne,
          List.head?_cons, Option.some_inj, Option.some_inj]
        exact iff_of_false
          (ne_ascii (Utf8.le_toNat_of_mem_utf8EncodeChar hd _ (List.head_mem hne)) hc)
          (ne_of_le_toNat hd hc)

theorem endOfGroup_toBytes (text : Text) :
    endOfGroup text.toBytes = Delimiter.endOfGroup text := by
  have hopening := head?_toBytes_eq_iff (by decide : '('.toNat < 0x80) text
  by_cases hopen : text.head? = some '('
  · obtain ⟨cs, rfl⟩ := List.head?_eq_some_iff.mp hopen
    have hclosing : (closingEnd 0 (Text.toBytes ('(' :: cs))).map (· + 1) =
        (splitGroup ('(' :: cs)).map fun parts => Text.byteSize parts.1 :=
      closingEnd_toBytes 0 ('(' :: cs)
    calc
      endOfGroup (Text.toBytes ('(' :: cs)) =
          ((closingEnd 0 (Text.toBytes ('(' :: cs))).map (· + 1)).map (· - 1) := by
        rw [endOfGroup, if_pos (hopening.mpr hopen), Option.map_map]
        exact Option.map_id'.symm
      _ = Delimiter.endOfGroup ('(' :: cs) := by
        rw [hclosing, Option.map_map]
        rfl
  · have hnone : splitGroup text = none := by
      unfold splitGroup
      split
      · simp at hopen
      · rfl
    rw [endOfGroup, if_neg (fun h => hopen (hopening.mp h)), Delimiter.endOfGroup, hnone]
    rfl

end Group

section TopLevel

variable {target : UInt8} {t : Char}

theorem passes_topLevelEnd (htarget : target.toNat < 0x80) (depth : Nat) :
    Passes (topLevelEnd target depth) := by
  intro b bytes hb
  have hne : b ≠ target := by
    rintro rfl
    omega
  have hquote : ¬(b = ascii '"' ∨ b = ascii '\'') := by
    rintro (h | h)
    · exact ne_ascii hb (by decide) h
    · exact ne_ascii hb (by decide) h
  rw [topLevelEnd, if_neg (fun h => hne h.1), if_neg hquote, depthAfter_of_le hb]

theorem drop_toBytes {c : Char} (hc : c.toNat < 0x80) (u v : Text) :
    (Text.toBytes (u ++ c :: v)).drop (u.byteSize + 1) = Text.toBytes v := by
  have happend : Text.toBytes (u ++ c :: v) = Text.toBytes u ++ ascii c :: Text.toBytes v := by
    rw [← toBytes_cons_of_lt hc]
    exact List.flatMap_append
  rw [happend, ← Utf8.length_toBytes, List.drop_length_add_append]
  rfl

theorem topLevelEnd_literal {c : Char} {depth : Nat} (ht : t.toNat < 0x80)
    (hmiss : ¬(c = t ∧ depth = 0)) (hquote : c = '"' ∨ c = '\'') (cs : Text) :
    topLevelEnd (ascii t) depth (Text.toBytes (c :: cs)) =
      (splitLiteral c c cs).bind fun (body, rest) =>
        (topLevelEnd (ascii t) depth rest.toBytes).map (· + (body.byteSize + 2)) := by
  have hc : c.toNat < 0x80 := by
    rcases hquote with rfl | rfl
    · decide
    · decide
  rw [← ascii_inj hc ht] at hmiss
  rw [← ascii_inj hc (by decide), ← ascii_inj hc (by decide)] at hquote
  rw [toBytes_cons_of_lt hc, topLevelEnd, if_neg hmiss, if_pos hquote,
    literalEnd_toBytes hc (ascii_inj hc (by decide))]
  cases hliteral : splitLiteral c c cs with
  | none => rfl
  | some parts =>
      obtain ⟨body, rest⟩ := parts
      simp only [Option.map_some, Option.bind_some]
      rw [← append_of_splitLiteral hliteral, drop_toBytes hc]

theorem topLevelEnd_toBytes (ht : t.toNat < 0x80) (depth : Nat) (text : Text) :
    topLevelEnd (ascii t) depth text.toBytes =
      (splitTopLevel (· = t) depth text).map fun parts => Text.byteSize parts.1 := by
  fun_induction splitTopLevel (fun d => decide (d = t)) depth text with
  | case1 depth => rw [Text.toBytes, List.flatMap_nil, topLevelEnd, Option.map_none]
  | case2 depth c cs hhit =>
      obtain rfl : c = t := of_decide_eq_true hhit.1
      rw [toBytes_cons_of_lt ht, topLevelEnd, if_pos ⟨rfl, hhit.2⟩]
      rfl
  | case3 depth c cs hmiss hquote hliteral =>
      rw [decide_eq_true_eq] at hmiss
      rw [topLevelEnd_literal ht hmiss hquote, hliteral]
      rfl
  | case4 depth c cs hmiss hquote body rest hliteral _ ih =>
      rw [decide_eq_true_eq] at hmiss
      have hsize : c.utf8Size = 1 := by
        rcases hquote with rfl | rfl
        · rfl
        · rfl
      rw [topLevelEnd_literal ht hmiss hquote, hliteral]
      simp only [Option.bind_some, ih, Option.map_map]
      congr 1
      funext parts
      simp only [Function.comp_apply, Text.byteSize_cons, Text.byteSize_append, hsize]
      omega
  | case5 depth c cs hmiss hquote ih =>
      rw [decide_eq_true_eq] at hmiss
      rcases Nat.lt_or_ge c.toNat 0x80 with hc | hc
      · rw [← ascii_inj hc ht] at hmiss
        rw [← ascii_inj hc (by decide), ← ascii_inj hc (by decide)] at hquote
        rw [toBytes_cons_of_lt hc, topLevelEnd, if_neg hmiss, if_neg hquote, depthAfter_ascii hc,
          ih]
        exact map_byteSize_cons_of_lt hc _
      · -- The bytes of the character open and close nothing, so the depth stays for all of them.
        rw [depthAfter_of_le_toNat hc] at ih ⊢
        rw [(passes_topLevelEnd (by rwa [toNat_ascii ht]) depth).toBytes_cons hc, ih]
        exact map_byteSize_cons c _

theorem findTopLevel_toBytes (htarget : target.toNat < 0x80) (text : Text) :
    findTopLevel text.toBytes target = Delimiter.findTopLevel text target := by
  obtain ⟨t, ht, rfl⟩ := exists_char_of_lt htarget
  rw [findTopLevel_eq_cutAt ht, cutAt, Option.map_map]
  exact topLevelEnd_toBytes ht 0 text

end TopLevel

end LogTemplate.Delimiter.Bytes
