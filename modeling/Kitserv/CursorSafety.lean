import Kitserv.CursorLog
import Kitserv.LoggedPath

namespace Kitserv

open Memory Logged

def StringsEnd (mem : Bytes) (req : Request) (bound : Nat) : Prop :=
  ∀ q ∈ req.strings, TerminatedBelow (0 : Byte) mem q bound

/-- What has been received fits in the buffer, an access is inside the part that is in use, and the
variables are in order at every point. -/
def Mark.Sound : Mark → Prop
  | received len count => len + count ≤ httpBufsz
  | access len a => a.offset < len
  | point len mem req p r => p ≤ r ∧ r ≤ len ∧ len ≤ httpBufsz ∧ StringsEnd mem req len

/-- The invariant of the switch: the strings found so far end in front of the segment that `p` and
`r` delimit. -/
structure Cursors (len : Nat) (mem : Bytes) (req : Request) (p r : Nat) : Prop where
  order : p ≤ r
  inside : r ≤ len
  fill : len ≤ httpBufsz
  size : mem.length = httpBufsz
  ends : StringsEnd mem req p

section Touches

variable {len : Nat} {mem : Bytes} {req req' : Request} {p p' r i : Nat}

theorem StringsEnd.mono (h : StringsEnd mem req p) (le : p ≤ p') : StringsEnd mem req p' :=
  fun q hq => (h q hq).mono le

theorem StringsEnd.set (h : StringsEnd mem req p) (le : p ≤ i) : StringsEnd (mem.set i 0) req p :=
  fun q hq => (h q hq).congr (take_set_of_le mem 0 le).symm

theorem Cursors.set (h : Cursors len mem req p r) (le : p ≤ i) :
    Cursors len (mem.set i 0) req p r :=
  ⟨h.order, h.inside, h.fill, List.length_set.trans h.size, h.ends.set le⟩

theorem Cursors.stored (h : Cursors len mem req p r) : StringsEnd mem req len :=
  h.ends.mono (Nat.le_trans h.order h.inside)

theorem passes_sound (order : p ≤ r) (inside : r ≤ len) (fill : len ≤ httpBufsz)
    (ends : StringsEnd mem req len) :
    Emits Mark.Sound (fun _ => True) (passes len mem req p r) := by
  refine .tell fun m member => ?_
  cases List.mem_singleton.mp member
  exact ⟨order, inside, fill, ends⟩

theorem Cursors.passes (h : Cursors len mem req p r) :
    Emits Mark.Sound (fun _ => True) (passes len mem req p r) :=
  passes_sound h.order h.inside h.fill h.stored

theorem look_sound (inside : i < len) : Emits Mark.Sound (fun _ => True) (look len i) := by
  refine .tell fun m member => ?_
  cases List.mem_singleton.mp member
  exact inside

theorem lookString_sound (ends : TerminatedBelow (0 : Byte) mem p len) :
    Emits Mark.Sound (fun _ => True) (lookString len mem p) := by
  refine .tell fun m member => ?_
  obtain ⟨a, reads, rfl⟩ := List.mem_map.mp member
  have before := (within_sscanfReads (Nat.le_refl p) rfl a reads).2
  exact Nat.lt_of_le_of_lt before ends.length_lt

theorem putNul_sound (inside : i < len) :
    Emits Mark.Sound (fun mem' => mem' = mem.set i 0) (putNul len mem i) := by
  refine .bind (.tell fun m member => ?_) fun _ _ => .pure rfl
  cases List.mem_singleton.mp member
  exact inside

theorem bufscmp_sound {target : String} (fits : p + (ascii target).length ≤ len) :
    Emits Mark.Sound (fun _ => True) (bufscmpLogged len mem p target) := by
  refine .bind (.tell fun m member => ?_) fun _ _ => .pure trivial
  obtain ⟨i, window, rfl⟩ := List.mem_map.mp member
  have bounds := List.mem_range'_1.mp window
  exact Nat.lt_of_lt_of_le bounds.2 fits

theorem decode_sound {str : Nat} (ends : TerminatedBelow (0 : Byte) mem str len)
    (le : len ≤ mem.length) :
    Emits Mark.Sound (fun mem' => mem' = urlDecode mem str) (decodeLogged len mem str) := by
  have within := within_urlDecodeLogged mem str str [] (Nat.le_refl str) (Nat.le_refl str) rfl
    (ends.mono le) (fun a none => by cases none)
  refine .bind (.tell fun m member => ?_) fun _ _ => .pure (urlDecodeLogged_mem mem str str [])
  obtain ⟨a, touched, rfl⟩ := List.mem_map.mp member
  exact Nat.lt_of_le_of_lt (within a touched).2 ends.length_lt

theorem scan_sound {stop : Byte} (h : Cursors len mem req p r) :
    Emits Mark.Sound (Cursors len mem req p) (scanLogged stop len mem req p r) := by
  induction room : len - r generalizing r with
  | zero =>
    rw [scanLogged, if_pos (by omega)]
    exact .bind h.passes fun _ _ => .pure h
  | succ n ih =>
    have ahead : r < len := by omega
    rw [scanLogged, if_neg (Nat.not_le.mpr ahead)]
    refine .bind h.passes fun _ _ => .bind (look_sound ahead) fun _ _ => ?_
    cases mem[r]? with
    | none => exact .pure h
    | some b =>
      have next : Cursors len mem req p (r + 1) :=
        ⟨Nat.le_succ_of_le h.order, ahead, h.fill, h.size, h.ends⟩
      exact .ite (fun _ => .pure h) fun _ => ih next (by omega)

end Touches

def ParseStep.Sound (len : Nat) : ParseStep → Prop
  | goto state mem req p r | readMore state mem req p r => state ≠ .new ∧ Cursors len mem req p r
  | finish mem req p => Cursors len mem req p p
  | fail mem req _ => mem.length = httpBufsz ∧ StringsEnd mem req len

section Line

variable {len : Nat} {mem : Bytes} {req req' : Request} {p r : Nat}

theorem Cursors.fails (h : Cursors len mem req p r) (same : req'.strings = req.strings)
    (status : HttpStatus) : (ParseStep.fail mem req' status).Sound len := by
  refine ⟨h.size, ?_⟩
  unfold StringsEnd
  rw [same]
  exact h.stored

/-- The next segment starts behind the byte at `r`. -/
theorem Cursors.advance (h : Cursors len mem req p r) (ahead : r < len)
    (same : req'.strings = req.strings) : Cursors len mem req' (r + 1) (r + 1) := by
  refine ⟨Nat.le_refl _, ahead, h.fill, h.size, ?_⟩
  unfold StringsEnd
  rw [same]
  exact h.ends.mono (Nat.le_succ_of_le h.order)

theorem methodAt_sound (ahead : r < len) :
    Emits Mark.Sound (fun _ => True) (methodAtLogged len mem p r) := by
  unfold methodAtLogged
  split
  · rename_i size
    have four (target : String) (length : (ascii target).length = 4) :
        Emits Mark.Sound (fun _ => True) (bufscmpLogged len mem p target) :=
      bufscmp_sound (by omega)
    refine .bind (four "GET " rfl) fun _ _ => .ite (fun _ => .pure trivial) fun _ => ?_
    exact .bind (four "PUT " rfl) fun _ _ => .ite (fun _ => .pure trivial) fun _ => .pure trivial
  · rename_i size
    have five (target : String) (length : (ascii target).length = 5) :
        Emits Mark.Sound (fun _ => True) (bufscmpLogged len mem p target) :=
      bufscmp_sound (by omega)
    refine .bind (five "HEAD " rfl) fun _ _ => .ite (fun _ => .pure trivial) fun _ => ?_
    exact .bind (five "POST " rfl) fun _ _ => .ite (fun _ => .pure trivial) fun _ => .pure trivial
  · rename_i size
    have seven : (ascii "DELETE ").length = 7 := rfl
    refine .bind (bufscmp_sound (by omega)) fun _ _ => ?_
    exact .ite (fun _ => .pure trivial) fun _ => .pure trivial
  · exact .pure trivial

theorem reqMethod_sound (h : Cursors len mem req p r) :
    Emits Mark.Sound (ParseStep.Sound len) (reqMethodLogged mem len req p r) := by
  refine .bind (scan_sound h) fun r h => .ite (fun _ => .pure ⟨by simp, h⟩) fun more => ?_
  have ahead := Nat.lt_of_not_le more
  refine .bind (methodAt_sound ahead) fun method _ => ?_
  cases method with
  | none => exact .pure (h.fails rfl .http501NotImplemented)
  | some m => exact .pure ⟨by simp, h.advance ahead rfl⟩

theorem checkTarget_sound {q : Nat} {s : Option Nat} (le : r ≤ len) (low : p ≤ q)
    (found : ∀ i, s = some i → p ≤ i ∧ i < r) :
    Emits Mark.Sound (fun out => ∀ i, out = some (some i) → p ≤ i ∧ i < r)
      (checkTarget len mem r q s) := by
  induction room : r - q generalizing q s with
  | zero =>
    rw [checkTarget, if_neg (by omega)]
    exact .pure fun i same => found i (Option.some.inj same)
  | succ n ih =>
    have more : q < r := by omega
    rw [checkTarget, if_pos more]
    refine .bind (look_sound (Nat.lt_of_lt_of_le more le)) fun _ _ => ?_
    cases mem[q]? with
    | none =>
      refine .pure fun i same => ?_
      cases s with
      | none => cases same; exact ⟨low, more⟩
      | some j => cases same; exact found j rfl
    | some b =>
      refine .ite (fun _ => .pure (by rintro i ⟨⟩)) fun _ => ih (Nat.le_succ_of_le low) ?_ (by omega)
      intro i same
      split at same
      · cases same
        exact ⟨low, more⟩
      · exact found i same

theorem strings_path (req : Request) (q : Nat) :
    { req with path := some q }.strings ⊆ q :: req.strings := by
  intro x hx
  simp only [Request.strings, List.mem_filterMap, List.mem_cons, List.not_mem_nil, or_false, id_eq,
    exists_eq_right] at hx ⊢
  grind

theorem strings_query (req : Request) (q : Nat) :
    { req with query := some q }.strings ⊆ q :: req.strings := by
  intro x hx
  simp only [Request.strings, List.mem_filterMap, List.mem_cons, List.not_mem_nil, or_false, id_eq,
    exists_eq_right] at hx ⊢
  grind

theorem StringsEnd.cons {q bound : Nat} (h : StringsEnd mem req bound)
    (new : TerminatedBelow (0 : Byte) mem q bound) (fields : req'.strings ⊆ q :: req.strings) :
    StringsEnd mem req' bound := by
  intro x hx
  rcases List.mem_cons.mp (fields hx) with rfl | old
  · exact new
  · exact h x old

theorem StringsEnd.decode {str bound : Nat} (h : StringsEnd mem req bound)
    (ends : TerminatedBelow (0 : Byte) mem str mem.length) (le : bound ≤ str) :
    StringsEnd (urlDecode mem str) req bound := by
  refine fun q hq => (h q hq).congr ?_
  rw [urlDecode_eq ends, take_overwrite_of_le _ _ le]

theorem storePath_sound {s : Option Nat} (h : Cursors len mem req p r) (ahead : r < len)
    (found : ∀ i, s = some i → p ≤ i ∧ i < r) :
    Emits Mark.Sound (fun out => out.1.length = httpBufsz ∧ StringsEnd out.1 out.2 (r + 1) ∧
        TerminatedBelow (0 : Byte) out.1 p (r + 1))
      (storePathLogged len mem req p r s) := by
  have fill := h.fill
  have size := h.size
  have room : r < mem.length := by omega
  have closed : (mem.set r 0)[r]? = some 0 := List.getElem?_set_self room
  refine .bind (putNul_sound ahead) ?_
  rintro _ rfl
  have first := h.set h.order
  have le : len ≤ (mem.set r 0).length := by
    rw [first.size]
    exact fill
  refine .bind first.passes fun _ _ => ?_
  cases s with
  | none =>
    have path : TerminatedBelow (0 : Byte) (mem.set r 0) p (r + 1) :=
      ⟨r, h.order, Nat.lt_succ_self r, closed⟩
    refine .bind (decode_sound (path.mono ahead) le) ?_
    rintro _ rfl
    have decoded := terminated_urlDecode path (by omega)
    have kept := (first.ends.decode path.inside (Nat.le_refl p)).mono (Nat.le_succ_of_le h.order)
    exact .pure ⟨(length_urlDecode _ _).trans first.size, kept.cons decoded (strings_path req p),
      decoded⟩
  | some i =>
    obtain ⟨low, high⟩ := found i rfl
    refine .bind (putNul_sound (Nat.lt_trans high ahead)) ?_
    rintro _ rfl
    have second := first.set low
    refine .bind second.passes fun _ _ => ?_
    have length : ((mem.set r 0).set i 0).length = httpBufsz := second.size
    generalize marked : (mem.set r 0).set i 0 = mem₂ at second length
    have query : TerminatedBelow (0 : Byte) mem₂ (i + 1) (r + 1) :=
      ⟨r, high, Nat.lt_succ_self r, by rw [← marked, List.getElem?_set_ne (by omega), closed]⟩
    refine .bind (decode_sound (query.mono ahead) (by omega)) ?_
    rintro _ rfl
    have mark : (urlDecode mem₂ (i + 1))[i]? = some 0 := by
      rw [getElem?_urlDecode_of_lt query.inside (Nat.lt_succ_self i), ← marked,
        List.getElem?_set_self (by omega)]
    have decoded := terminated_urlDecode query (by omega)
    have third := second.ends.decode query.inside (by omega)
    have length₃ : (urlDecode mem₂ (i + 1)).length = httpBufsz := by rw [length_urlDecode, length]
    generalize urlDecode mem₂ (i + 1) = mem₃ at mark decoded third length₃
    have both : StringsEnd mem₃ { req with query := some (i + 1) } (r + 1) :=
      (third.mono (Nat.le_succ_of_le h.order)).cons decoded (strings_query req (i + 1))
    refine .bind (passes_sound h.order h.inside h.fill (both.mono ahead)) fun _ _ => ?_
    -- the path ends where the query begins
    have path : TerminatedBelow (0 : Byte) mem₃ p (i + 1) := ⟨i, low, Nat.lt_succ_self i, mark⟩
    refine .bind (decode_sound (path.mono (by omega)) (by omega)) ?_
    rintro _ rfl
    have kept : TerminatedBelow (0 : Byte) (urlDecode mem₃ p) (i + 1) (r + 1) := by
      obtain ⟨j, behind, before, zero⟩ := decoded
      exact ⟨j, behind, before, by rw [getElem?_urlDecode_of_ge path (by omega) behind, zero]⟩
    have decoded' := (terminated_urlDecode path (by omega)).mono (show i + 1 ≤ r + 1 by omega)
    have old := (third.decode path.inside (Nat.le_refl p)).mono (Nat.le_succ_of_le h.order)
    exact .pure ⟨(length_urlDecode _ _).trans length₃,
      (old.cons kept (strings_query req (i + 1))).cons decoded' (strings_path _ p), decoded'⟩

theorem traversal_sound (ends : TerminatedBelow (0 : Byte) mem p len) :
    Emits Mark.Sound (fun _ => True) (traversalLogged len mem p) := by
  refine .bind (lookString_sound ends) fun _ _ => ?_
  dsimp only
  cases found : strstr (cString mem p) (ascii "..") with
  | none => exact .pure trivial
  | some i =>
    have inside := strstr_some found
    have two : (ascii "..").length = 2 := rfl
    have last : p + (cString mem p).length < len := ends.length_lt
    refine .bind (look_sound (by omega)) fun _ _ => .ite (fun _ => ?_) fun _ => .pure trivial
    refine .ite (fun _ => .pure trivial) fun _ => ?_
    exact .bind (look_sound (by omega)) fun _ _ => .pure trivial

theorem reqPath_sound (h : Cursors len mem req p r) :
    Emits Mark.Sound (ParseStep.Sound len) (reqPathLogged mem len req p r) := by
  refine .bind (scan_sound h) fun r h => .ite (fun _ => .pure ⟨by simp, h⟩) fun more => ?_
  have ahead := Nat.lt_of_not_le more
  refine .bind (checkTarget_sound h.inside (Nat.le_refl p) nofun) fun target found => ?_
  cases target with
  | none => exact .pure (h.fails rfl .http400BadRequest)
  | some s =>
    refine .bind (storePath_sound h ahead fun i same => found i (by rw [same])) ?_
    rintro ⟨mem', req'⟩ ⟨size, ends, path⟩
    refine .bind (passes_sound h.order h.inside h.fill (ends.mono ahead)) fun _ _ => ?_
    refine .bind (traversal_sound (path.mono ahead)) fun attempted _ => ?_
    refine .ite (fun _ => .pure ⟨size, ends.mono ahead⟩) fun _ => .pure ⟨by simp, ?_⟩
    exact ⟨Nat.le_refl _, ahead, h.fill, size, ends⟩

theorem reqVersion_sound (h : Cursors len mem req p r) :
    Emits Mark.Sound (ParseStep.Sound len) (reqVersionLogged mem len req p r) := by
  refine .bind (scan_sound h) fun r h => .ite (fun _ => .pure ⟨by simp, h⟩) fun more => ?_
  have ahead := Nat.lt_of_not_le more
  have five : (ascii "HTTP/").length = 5 := rfl
  have order := h.order
  refine .ite (fun _ => .pure (h.fails rfl .http400BadRequest)) fun long => ?_
  refine .bind (bufscmp_sound (by omega)) fun protocol _ => ?_
  refine .ite (fun _ => .pure (h.fails rfl .http400BadRequest)) fun _ => ?_
  refine .bind (passes_sound (by omega) h.inside h.fill h.stored) fun _ _ => ?_
  refine .ite (fun size => ?_) fun _ => .pure (h.fails rfl .http505VersionNotSupported)
  have three (target : String) (length : (ascii target).length = 3) :
      Emits Mark.Sound (fun _ => True) (bufscmpLogged len mem (p + 5) target) :=
    bufscmp_sound (by omega)
  refine .bind (three "1.1" rfl) fun _ _ =>
    .ite (fun _ => .pure ⟨by simp, h.advance ahead rfl⟩) fun _ => ?_
  refine .bind (three "1.0" rfl) fun _ _ =>
    .ite (fun _ => .pure ⟨by simp, h.advance ahead rfl⟩) fun _ => ?_
  exact .pure (h.fails rfl .http505VersionNotSupported)

theorem reqVersionLf_sound (h : Cursors len mem req p r) :
    Emits Mark.Sound (ParseStep.Sound len) (reqVersionLfLogged mem len req p r) := by
  refine .bind h.passes fun _ _ => .ite (fun _ => .pure ⟨by simp, h⟩) fun more => ?_
  have ahead := Nat.lt_of_not_le more
  refine .bind (look_sound ahead) fun _ _ => ?_
  refine .ite (fun _ => .pure (h.fails rfl .http400BadRequest)) fun _ => ?_
  exact .pure ⟨by simp, h.advance ahead rfl⟩

end Line

section Headers

variable {len : Nat} {mem : Bytes} {req : Request} {p r q : Nat}

/-- The blanks end at a NUL. -/
theorem skipBlanks_sound (closed : mem[r]? = some 0) (ahead : r < len) (le : q ≤ r) :
    Emits Mark.Sound (fun q' => q' ≤ r) (skipBlanksLogged len mem q) := by
  induction room : r - q generalizing q with
  | zero =>
    obtain rfl : q = r := by omega
    obtain ⟨inside, zero⟩ := List.getElem?_eq_some_iff.mp closed
    rw [skipBlanksLogged, dif_pos inside]
    refine .bind (look_sound ahead) fun _ _ => .ite (fun blank => ?_) fun _ => .pure le
    rw [zero] at blank
    cases blank
  | succ n ih =>
    rw [skipBlanksLogged]
    refine .bind (look_sound (by omega)) fun _ _ => ?_
    split
    · exact .ite (fun _ => ih (by omega) (by omega)) fun _ => .pure le
    · exact .pure le

theorem findHeader_sound (ends : TerminatedBelow (0 : Byte) mem p len) (s : Nat)
    (table : List (Bytes × Nat × HeaderFunc)) :
    Emits Mark.Sound (fun _ => True) (findHeader len mem p s table) := by
  induction table with
  | nil => exact .pure trivial
  | cons h rest ih =>
    refine .ite (fun _ => ?_) fun _ => ih
    exact .bind (lookString_sound ends) fun _ _ => .ite (fun _ => .pure trivial) fun _ => ih

theorem processHeader_sound (name : TerminatedBelow (0 : Byte) mem p len)
    (ends : TerminatedBelow (0 : Byte) mem q len) (s : Nat) :
    Emits Mark.Sound (fun out => out = processHeader mem req p s q)
      (processHeaderLogged len mem req p s q) := by
  have sound : Emits Mark.Sound (fun _ => True) (processHeaderLogged len mem req p s q) := by
    refine .bind (findHeader_sound name s headers) fun entry _ => ?_
    cases entry with
    | none => exact .pure trivial
    | some h => exact .bind (lookString_sound ends) fun _ _ => .pure trivial
  exact sound.exactly (value_processHeader s q)

theorem reqHead_sound (h : Cursors len mem req p r) :
    Emits Mark.Sound (ParseStep.Sound len) (reqHeadLogged mem len req p r) := by
  refine .bind (scan_sound h) fun r h => .ite (fun _ => .pure ⟨by simp, h⟩) fun more => ?_
  have ahead := Nat.lt_of_not_le more
  have order := h.order
  refine .ite (fun line => ?_) fun _ => .pure ⟨by simp, ?_⟩
  · have fill := h.fill
    have size := h.size
    have closed : (mem.set r 0)[r]? = some 0 := List.getElem?_set_self (by omega)
    refine .bind (putNul_sound ahead) ?_
    rintro _ rfl
    have first := h.set order
    have ends : TerminatedBelow (0 : Byte) (mem.set r 0) p (r + 1) :=
      ⟨r, order, Nat.lt_succ_self r, closed⟩
    refine .bind first.passes fun _ _ => .bind (lookString_sound (ends.mono ahead)) fun _ _ => ?_
    cases colon : strchr (mem.set r 0) p 58 with
    | none => exact .pure (first.fails rfl .http400BadRequest)
    | some s =>
      obtain ⟨low, inLine⟩ := strchr_some colon
      have before : s < r := by
        have stop := ends.length_lt
        unfold cString at inLine
        omega
      refine .bind (putNul_sound (Nat.lt_trans before ahead)) ?_
      rintro _ rfl
      have second := first.set low
      have capped : ((mem.set r 0).set s 0)[r]? = some 0 :=
        (List.getElem?_set_ne (by omega)).trans closed
      have name : TerminatedBelow (0 : Byte) ((mem.set r 0).set s 0) p len :=
        ⟨s, low, by omega, List.getElem?_set_self (by rw [List.length_set]; omega)⟩
      generalize (mem.set r 0).set s 0 = mem₂ at second capped name
      refine .bind second.passes fun _ _ => ?_
      refine .bind (skipBlanks_sound capped ahead before) fun q le => ?_
      have value : TerminatedBelow (0 : Byte) mem₂ q (r + 1) := ⟨r, le, Nat.lt_succ_self r, capped⟩
      refine .bind (processHeader_sound name (value.mono ahead) s) ?_
      rintro _ rfl
      have fields := (processHeader_fields mem₂ req p s q).2
      generalize processHeader mem₂ req p s q = result at fields
      obtain ⟨req', status⟩ := result
      have stored := (second.ends.mono (Nat.le_succ_of_le order)).cons value fields
      refine .bind (passes_sound order h.inside fill (stored.mono ahead)) fun _ _ => ?_
      cases status with
      | some status => exact .pure ⟨second.size, stored.mono ahead⟩
      | none => exact .pure ⟨by simp, Nat.le_refl _, ahead, fill, second.size, stored⟩
  · exact ⟨Nat.le_succ_of_le order, ahead, h.fill, h.size, h.ends⟩

theorem reqHeadLf_sound (h : Cursors len mem req p r) :
    Emits Mark.Sound (ParseStep.Sound len) (reqHeadLfLogged mem len req p r) := by
  refine .bind h.passes fun _ _ => .ite (fun _ => .pure ⟨by simp, h⟩) fun more => ?_
  have ahead := Nat.lt_of_not_le more
  refine .bind (look_sound ahead) fun _ _ => ?_
  refine .ite (fun _ => .pure (h.fails rfl .http400BadRequest)) fun _ => ?_
  exact .ite (fun _ => .pure ⟨by simp, h.advance ahead rfl⟩) fun _ => .pure (h.advance ahead rfl)

end Headers

def ParseEnd.Sound (len : Nat) : ParseEnd → Prop
  | readMore state mem req p r => state ≠ .new ∧ Cursors len mem req p r
  | finish mem req p => Cursors len mem req p p
  | fail mem req _ => mem.length = httpBufsz ∧ StringsEnd mem req len

section Switch

variable {len : Nat} {mem : Bytes} {req : Request} {p r : Nat} {state : ParseState}

/-- HTTP_PS_NEW is entered with `p` at the front of the buffer only. -/
theorem parseStep_sound (h : Cursors len mem req p r) (start : state = .new → p = 0) :
    Emits Mark.Sound (ParseStep.Sound len) (parseStepLogged len state mem req p r) := by
  cases state with
  | new =>
    cases start rfl
    exact .pure ⟨by simp, Nat.le_refl 0, Nat.zero_le len, h.fill, h.size, h.ends⟩
  | reqMethod => exact reqMethod_sound h
  | reqPath => exact reqPath_sound h
  | reqVersion => exact reqVersion_sound h
  | reqVersionLf => exact reqVersionLf_sound h
  | reqHead => exact reqHead_sound h
  | reqHeadLf => exact reqHeadLf_sound h

theorem parse_sound (h : Cursors len mem req p r) (start : state = .new → p = 0) :
    Emits Mark.Sound (ParseEnd.Sound len) (parseLogged len state mem req p r) := by
  fun_induction parse len state mem req p r with
  | case1 state mem req p r state' mem' req' p' r' step ih =>
    have one := parseStep_sound h start
    have next := one.returns
    rw [value_parseStep, step] at next
    rw [parseLogged_eq, step]
    exact .bind (.tell one.entries) fun _ _ => ih next.2 fun new => absurd new next.1
  | case2 state mem req p r state' mem' req' p' r' step =>
    have one := parseStep_sound h start
    have next := one.returns
    rw [value_parseStep, step] at next
    rw [parseLogged_eq, step]
    exact .bind (.tell one.entries) fun _ _ => .pure next
  | case3 state mem req p r mem' req' p' step =>
    have one := parseStep_sound h start
    have next : Cursors len mem' req' p' p' := by
      have ends := one.returns
      rwa [value_parseStep, step] at ends
    rw [parseLogged_eq, step]
    exact .bind (.tell one.entries) fun _ _ => .bind next.passes fun _ _ => .pure next
  | case4 state mem req p r mem' req' status step =>
    have one := parseStep_sound h start
    have next := one.returns
    rw [value_parseStep, step] at next
    rw [parseLogged_eq, step]
    exact .bind (.tell one.entries) fun _ _ => .pure next

end Switch

section Calls

variable {c : Client} {k : Kernel} {p r : Option Nat}

structure Client.Stored (c : Client) : Prop where
  fill : c.reqHeadersLen ≤ httpBufsz
  size : c.reqHeaders.length = httpBufsz
  ends : StringsEnd c.reqHeaders c.ta.req c.reqHeadersLen

/-- The cursors between two runs of the switch: NULL in front of a head, in order from then on. -/
structure Client.Rests (c : Client) (p r : Option Nat) : Prop where
  cursors : Cursors c.reqHeadersLen c.reqHeaders c.ta.req (p.getD 0) (r.getD 0)
  begun : c.ta.parseState = .new ∧ p = none ∧ r = none ∨
    c.ta.parseState ≠ .new ∧ p.isSome = true ∧ r.isSome = true

theorem Client.Rests.stored (h : c.Rests p r) : c.Stored :=
  ⟨h.cursors.fill, h.cursors.size, h.cursors.stored⟩

theorem Client.Rests.start (h : c.Rests p r) (new : c.ta.parseState = .new) : p.getD 0 = 0 := by
  rcases h.begun with ⟨-, none, -⟩ | ⟨other, -⟩
  · rw [none]
    rfl
  · exact absurd new other

/-- More bytes arrive behind those that are there. -/
theorem Client.Rests.extend (h : c.Rests p r) {bs : Bytes}
    (fits : c.reqHeadersLen + bs.length ≤ httpBufsz) :
    { c with reqHeaders := overwrite c.reqHeaders c.reqHeadersLen bs
             reqHeadersLen := c.reqHeadersLen + bs.length }.Rests p r := by
  obtain ⟨⟨order, inside, fill, size, ends⟩, begun⟩ := h
  refine ⟨⟨order, Nat.le_add_right_of_le inside, fits, (length_overwrite ..).trans size, ?_⟩, begun⟩
  exact fun q hq => (ends q hq).congr (take_overwrite_of_le _ _ (Nat.le_trans order inside)).symm

def Outcome.Sound (o : Outcome) : Prop :=
  o.client.Stored ∧ (o.rc = 0 → o.client.ta.state = .read →
    o.client.Rests o.client.ta.reqParseBlk o.client.ta.reqParseIter)

def Round.Sound : Round → Prop
  | stop o => o.Sound
  | again c _ p r => c.Rests p r

theorem Client.Stored.hangsUp (h : c.Stored) (status : HttpStatus) (k : Kernel) :
    (Round.stop { rc := -1, client := c.setStatus status, kernel := k }).Sound :=
  ⟨⟨h.fill, h.size, h.ends⟩, nofun⟩

theorem recvParse_sound (h : c.Rests p r) (k : Kernel) :
    Emits Mark.Sound Round.Sound (recvParseLogged c k p r) := by
  refine .bind (parse_sound h.cursors h.start) fun parsed sound => .pure ?_
  cases parsed with
  | readMore state mem req p r => exact ⟨sound.2, .inr ⟨sound.1, rfl, rfl⟩⟩
  | finish mem req p =>
    exact ⟨⟨sound.fill, sound.size, sound.stored⟩, fun _ reads => by cases reads⟩
  | fail mem req status => exact ⟨⟨h.cursors.fill, sound.1, sound.2⟩, nofun⟩

theorem recvRound_sound (h : c.Rests p r) (k : Kernel) :
    Emits Mark.Sound Round.Sound (recvRoundLogged c k p r) := by
  unfold recvRoundLogged
  cases result : k.read (httpBufsz - c.reqHeadersLen) with
  | mk res k' =>
    cases res with
    | wouldBlock =>
      refine .ite (fun _ => .pure ?_) fun _ => recvParse_sound h k'
      exact ⟨⟨h.cursors.fill, h.cursors.size, h.cursors.stored⟩, fun _ _ => ⟨h.cursors, h.begun⟩⟩
    | failed code => exact .pure (h.stored.hangsUp .xHangup k')
    | data bs =>
      cases bs with
      | nil =>
        refine .ite (fun _ => .ite (fun _ => .pure ?_) fun _ => recvParse_sound h k') fun _ => .pure ?_
        · exact h.stored.hangsUp .http431RequestHeaderFieldsTooLarge k'
        · exact h.stored.hangsUp .xHangup k'
      | cons b bs =>
        have fits : c.reqHeadersLen + (b :: bs).length ≤ httpBufsz := by
          have count := read_length result
          have fill := h.cursors.fill
          omega
        refine .bind (.tell fun m member => ?_) fun _ _ => recvParse_sound (h.extend fits) k'
        cases List.mem_singleton.mp member
        exact fits

theorem recvLoop_sound (h : c.Rests p r) (k : Kernel) :
    Emits Mark.Sound Outcome.Sound (recvLoopLogged c k p r) := by
  fun_induction recvLoop c k p r with
  | case1 c k p r o round =>
    have one := recvRound_sound h k
    have next := one.returns
    rw [value_recvRound, round] at next
    rw [recvLoopLogged_eq, round]
    exact .bind (.tell one.entries) fun _ _ => .pure next
  | case2 c k p r c' k' p' r' round ih =>
    have one := recvRound_sound h k
    have next := one.returns
    rw [value_recvRound, round] at next
    rw [recvLoopLogged_eq, round]
    exact .bind (.tell one.entries) fun _ _ => ih next

end Calls

section Runs

variable {s : Server} {c : Client} {k : Kernel}

def Client.Poised (c : Client) : Prop :=
  c.ta.state = .read → c.Rests c.ta.reqParseBlk c.ta.reqParseIter

theorem Client.Poised.of_state (other : c.ta.state ≠ .read) : c.Poised :=
  fun reads => absurd reads other

theorem Idle.poised (idle : Idle c) : c.Poised := by
  obtain ⟨size, fill, fresh⟩ := idle
  refine fun _ => ⟨⟨?_, ?_, fill, size, ?_⟩, .inl ?_⟩
  · rw [fresh]
  · rw [fresh]
    exact Nat.zero_le _
  · rw [fresh]
    exact nofun
  · rw [fresh]
    exact ⟨rfl, rfl, rfl⟩

theorem afterStage_poised {o : Outcome} (sound : o.Sound) : (afterStage .read o).Keeps Client.Poised := by
  unfold afterStage
  split
  · split
    · exact fun zero => absurd zero (by simp)
    · exact .of_state (by simp [Client.setState])
  · rename_i ok
    split
    · exact fun _ => sound.2 (not_not.mp ok)
    · rename_i other
      exact .of_state other

theorem serveStep_poised (poised : c.Poised) (consistent : Consistent c)  :
    (serveStep s c k).Keeps Client.Poised := by
  cases state : c.ta.state with
  | read =>
    have step : serveStep s c k = afterStage .read (recvRequest c k) := by rw [serveStep, state]
    rw [step]
    have sound := (recvLoop_sound (poised state) k).returns
    rw [value_recvLoop] at sound
    exact afterStage_poised sound
  | serve =>
    cases served : serveRequest s c k with
    | none =>
      have step : serveStep s c k = .abort := by simp only [serveStep, state, served]
      rw [step]
      trivial
    | some o =>
      rcases serveStep_serve state served with ⟨waits, step⟩ | ⟨prepares, step⟩
      · rw [step]
        exact fun _ => .of_state (by simp [waits])
      · rw [step]
        exact .of_state (by simp [prepares])
  | prepareResponse =>
    cases prepared : prepareResponse c k with
    | none =>
      have step : serveStep s c k = .abort := by simp only [serveStep, state, prepared]
      rw [step]
      trivial
    | some o =>
      rcases serveStep_prepareResponse (s := s) state prepared with ⟨-, step⟩ | ⟨rc, step⟩
      · rw [step]
        exact fun zero => absurd zero (by simp)
      · obtain ⟨rc', c', k'⟩ := o
        cases rc
        obtain ⟨c₁, buf, n, rfl⟩ := prepareResponse_ready prepared
        rw [step]
        exact .of_state (by simp [describeBuffers])
  | send =>
    rcases serveStep_send s k state with ⟨waits, step⟩ | ⟨goes, step⟩
    · rw [step]
      exact fun _ => .of_state (by simp [waits])
    · rw [step]
      exact .of_state (by simp [goes])
  | sendFile =>
    rcases serveStep_sendFile s k state with ⟨rc, step⟩ | ⟨rc, waits, step⟩ | ⟨rc, done, step⟩
    · rw [step]
      exact fun zero => absurd zero (by simp)
    · rw [step]
      exact fun _ => .of_state (by simp [waits])
    · rw [step]
      exact .of_state (by simp [done])
  | done =>
    cases consistent with
    | reading reads =>
      rw [state] at reads
      cases reads
    | refused refused =>
      have early := refused.state
      rw [state] at early
      simp at early
    | serving _ parsed =>
      obtain ⟨c', k', finalized, idle, left, -⟩ := finalizeTransaction_idle parsed.window (k := k)
      rw [serveStep_done state, finalized]
      exact idle.poised

theorem Reachable.poised (reached : Reachable s c) : c.Poised := by
  induction reached with
  | created blocks => exact (createClientStruct_idle blocks).poised
  | @next c c' k k' before step ih =>
    obtain ⟨v, heard⟩ := before.heard
    have kept := serveStep_poised (s := s) (k := k) ih heard.recalls.consistent
    rwa [step] at kept
  | @waits c k o before step rc ih =>
    obtain ⟨v, heard⟩ := before.heard
    have kept := serveStep_poised (s := s) (k := k) ih heard.recalls.consistent
    rw [step] at kept
    exact kept rc
  | @reset c k o before step ih =>
    obtain ⟨v, heard⟩ := (before.reset step).heard
    exact Idle.poised ⟨heard.recalls.size, Nat.zero_le _, rfl⟩

/-- In every call of `kitserv_http_recv_request` that a connection makes, whatever arrives and however
it is cut: the call finds its cursors in order, it is `recvRequest`, everything that it does on the way
is inside the bytes received, and it leaves terminated strings and cursors in order. -/
theorem recv_request_in_bounds (reached : Reachable s c) (reads : c.ta.state = .read) (k : Kernel) :
    c.Rests c.ta.reqParseBlk c.ta.reqParseIter ∧
      value (recvRequestLogged c k) = recvRequest c k ∧
      (∀ m ∈ log (recvRequestLogged c k), m.Sound) ∧ (recvRequest c k).Sound := by
  have rests := reached.poised reads
  have sound := recvLoop_sound rests k
  have same : value (recvRequestLogged c k) = recvRequest c k := value_recvRequest
  exact ⟨rests, same, sound.entries, same ▸ sound.returns⟩

/-- A request with the front of the next one in the same read, the rest of which comes in two pieces. -/
def cutBehindFirst : Kernel where
  input := [.chunk 71 (ascii "ET / HTTP/1.1\r\n\r\nGET / HT"), .chunk 84 (ascii "P/1.1\r\nhost: "),
    .chunk 97 (ascii "\r\n\r\n")]
  writes := [.bytes 1000]
  fs _ := .empty

theorem Conn.Keeps.client {inv : Client → Prop} {conn : Conn} (keeps : conn.Keeps inv)
    (isOpen : conn.open? = some c) : inv c := by
  cases conn with
  | serving | waiting =>
    cases isOpen
    exact keeps
  | closed | aborted => cases isOpen

/-- The call that takes over the 8 bytes that the transaction before it has left, and parses a head that
is cut twice. -/
theorem recv_request_in_bounds_cut : ∃ c k,
    (Conn.run ignoring 6 (.serving (createClientStruct Blocks.zeroed) cutBehindFirst)).open? = some c ∧
      (Conn.run ignoring 6 (.serving (createClientStruct Blocks.zeroed) cutBehindFirst)).kernel? =
        some k ∧
      c.reqHeadersLen = 8 ∧ (recvRequest c k).client.ta.state = .serve ∧
      c.Rests c.ta.reqParseBlk c.ta.reqParseIter ∧
      (∀ m ∈ log (recvRequestLogged c k), m.Sound) ∧ (recvRequest c k).Sound := by
  have goes : ((Conn.run ignoring 6 (.serving (createClientStruct Blocks.zeroed)
      cutBehindFirst)).open?.bind fun c => (Conn.run ignoring 6 (.serving
        (createClientStruct Blocks.zeroed) cutBehindFirst)).kernel?.map fun k =>
          (c.ta.state, c.reqHeadersLen, (recvRequest c k).client.ta.state)) =
            some (.read, 8, .serve) := by decide +kernel
  have keeps := run_reachable 6 cutBehindFirst (Reachable.created (s := ignoring) Blocks.zeroed)
  obtain ⟨c, isOpen, goes⟩ := Option.bind_eq_some_iff.mp goes
  obtain ⟨k, kernel, shown⟩ := Option.map_eq_some_iff.mp goes
  simp only [Prod.mk.injEq] at shown
  obtain ⟨state, left, serves⟩ := shown
  obtain ⟨rests, -, sound⟩ := recv_request_in_bounds (keeps.client isOpen) state k
  exact ⟨c, k, isOpen, kernel, left, serves, rests, sound⟩

/-- The path of this request is terminated at its space. -/
example : (log (recvRequestLogged (createClientStruct Blocks.zeroed) (getRequest "/a"))).any
    (· == .access 19 (.write 6)) = true := by decide +kernel

end Runs

end Kitserv
