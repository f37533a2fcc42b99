import Realm.Proofs.Wire.Varint
import Realm.Wire.Field

/-!
# Fields of a payload

A reader that asks for the fields of a payload in the order of the writer gets their values back and
is left with what was written after them. Texts are read back if their length fits the number that
announces it.
-/

namespace Realm

namespace Single

/-- The four bytes of a pattern put it together again. -/
theorem ofBytes_toBytes (a : Single) :
    ofBytes a.bits.toUInt8 (a.bits >>> 8).toUInt8 (a.bits >>> 16).toUInt8
      (a.bits >>> 24).toUInt8 = a := by
  obtain ⟨bits⟩ := a
  have hbyte : ∀ shift : UInt32, shift.toNat < 32 →
      (bits >>> shift).toUInt8.toUInt32.toNat = bits.toNat / 2 ^ shift.toNat % 256 := by
    intro shift hshift
    rw [UInt8.toNat_toUInt32, UInt32.toNat_toUInt8, UInt32.toNat_shiftRight,
      Nat.mod_eq_of_lt hshift, Nat.shiftRight_eq_div_pow]
  have hlow : bits.toUInt8.toUInt32.toNat = bits.toNat % 256 := by
    rw [UInt8.toNat_toUInt32, UInt32.toNat_toUInt8]
  have h₁ := hbyte 8 (by decide)
  have h₂ := hbyte 16 (by decide)
  have h₃ := hbyte 24 (by decide)
  simp only [UInt32.reduceToNat] at h₁ h₂ h₃
  have hlt := bits.toNat_lt
  have hor₁ := Wire.Varint.toNat_or_shiftLeft (k := 8)
    (show bits.toUInt8.toUInt32.toNat < 2 ^ 8 by omega) (by omega)
    (show (bits >>> 8).toUInt8.toUInt32.toNat * 2 ^ 8 < 2 ^ 32 by omega)
  have hor₂ := Wire.Varint.toNat_or_shiftLeft (k := 16) (hor₁.trans_lt (by omega)) (by omega)
    (show (bits >>> 16).toUInt8.toUInt32.toNat * 2 ^ 16 < 2 ^ 32 by omega)
  have hor₃ := Wire.Varint.toNat_or_shiftLeft (k := 24) (hor₂.trans_lt (by omega)) (by omega)
    (show (bits >>> 24).toUInt8.toUInt32.toNat * 2 ^ 24 < 2 ^ 32 by omega)
  rw [ofBytes]
  congr 1
  apply UInt32.toNat_inj.mp
  refine hor₃.trans ?_
  omega

end Single

namespace Wire

theorem Read.get_bind {α : Type} (f : Reader → Read α) (r : Reader) : (get >>= f) r = f r r := rfl

theorem Read.bind_of_ok {α β : Type} {m : Read α} {f : α → Read β} {a : α} {r r' : Reader}
    (h : m r = .ok a r') : (m >>= f) r = f a r' := by
  change EStateM.bind m f r = _
  rw [EStateM.bind, h]

/-- Reading `a` takes just the bytes `bytes`, whatever follows them. -/
def Read.Takes {α : Type} (m : Read α) (bytes : List UInt8) (a : α) : Prop :=
  ∀ (r : Reader) (rest : List UInt8), r.unread = bytes ++ rest →
    m r = .ok a { r with position := r.position + bytes.length }

namespace Read.Takes

variable {α β : Type} {m : Read α} {f : α → Read β} {bytes bytes' : List UInt8} {a : α} {b : β}

theorem pure (a : α) : Takes (Pure.pure a) [] a := fun _ _ _ => rfl

theorem bind (h : Takes m bytes a) (h' : Takes (f a) bytes' b) :
    Takes (m >>= f) (bytes ++ bytes') b := by
  intro r rest hunread
  rw [List.append_assoc] at hunread
  have hrest : ({ r with position := r.position + bytes.length } : Reader).unread =
      bytes' ++ rest := by
    rw [Reader.unread] at hunread ⊢
    rw [← List.drop_drop, hunread, List.drop_left]
  rw [bind_of_ok (h r _ hunread), h' _ _ hrest, List.length_append, Nat.add_assoc]

theorem map (g : α → β) (h : Takes m bytes a) : Takes (g <$> m) bytes (g a) := by
  intro r rest hunread
  change EStateM.map g m r = _
  rw [EStateM.map, h r rest hunread]

/-- A payload that holds nothing else is read as a whole. -/
theorem run_eq (h : Takes m bytes a) : Reader.run bytes m = .ok a := by
  have hread : m (.start bytes) = .ok a ⟨bytes, 0 + bytes.length⟩ :=
    h (.start bytes) [] (List.append_nil _).symm
  have hfinish : Reader.finish ⟨bytes, 0 + bytes.length⟩ = .ok () ⟨bytes, 0 + bytes.length⟩ := by
    rw [Reader.finish, get_bind]
    dsimp only
    rw [if_pos (by omega)]
    rfl
  have hall : (do let value ← m; Reader.finish; Pure.pure value : Read α) (.start bytes) =
      .ok a ⟨bytes, 0 + bytes.length⟩ := by
    rw [bind_of_ok hread, bind_of_ok hfinish]
    rfl
  rw [Reader.run, hall]

end Read.Takes

namespace Reader

open Read

theorem takes_take (name : String) (bytes : List UInt8) :
    Takes (take bytes.length name) bytes bytes := by
  intro r rest hunread
  have hlength : ¬ r.unread.length < bytes.length := by
    rw [hunread, List.length_append]
    omega
  rw [take, get_bind, if_neg hlength]
  change EStateM.Result.ok (r.unread.take bytes.length) _ = _
  rw [hunread, List.take_left]

theorem takes_number (name : String) (value : UInt32) :
    Takes (number name) (Varint.encode value) value := by
  intro r rest hunread
  have hread := Varint.decode_encode_append value rest
  rw [← hunread] at hread
  rw [number, get_bind, hread]
  rfl

theorem takes_single (name : String) (value : Single) :
    Takes (single name) value.toBytes value := by
  have hbytes : Takes (single name) (value.toBytes ++ []) _ :=
    (takes_take name value.toBytes).bind (.pure (Single.ofBytes _ _ _ _))
  rwa [List.append_nil, Single.ofBytes_toBytes] at hbytes

theorem fromUTF8?_toByteArray (value : String) :
    String.fromUTF8? value.toUTF8.data.toList.toByteArray = some value := by
  have hbytes : value.toUTF8.data.toList.toByteArray = value.toByteArray :=
    ByteArray.ext List.data_toByteArray
  rw [hbytes, String.fromUTF8?, dif_pos value.isValidUTF8]
  rfl

theorem takes_text (name : String) {value : String} (h : value.utf8ByteSize < 2 ^ 32) :
    Takes (text name) (Field.encode (.text value)) value := by
  have hlength : (UInt32.ofNat value.utf8ByteSize).toNat = value.toUTF8.data.toList.length := by
    rw [UInt32.toNat_ofNat_of_lt' h]
    rfl
  have hbytes := takes_take name value.toUTF8.data.toList
  rw [← hlength] at hbytes
  have htext : Takes (text name) (Varint.encode (UInt32.ofNat value.utf8ByteSize) ++
      (value.toUTF8.data.toList ++ [])) value := by
    refine (takes_number name _).bind (hbytes.bind ?_)
    rw [fromUTF8?_toByteArray]
    exact .pure value
  rwa [List.append_nil] at htext

end Reader

namespace Field

/-- The length of a text fits the number that announces it. -/
def Fits : Field → Prop
  | .text value => value.utf8ByteSize < 2 ^ 32
  | _ => True

def type : Field → FieldType
  | .number _ => .number
  | .single _ => .single
  | .text _ => .text

variable {f g : Field} {fs gs : List Field}

theorem fits_of_length (h : f.encode.length < 2 ^ 32) : f.Fits := by
  cases f with
  | number value => trivial
  | single value => trivial
  | text value =>
      have hbytes : value.toUTF8.data.toList.length = value.utf8ByteSize := rfl
      rw [encode, List.length_append, hbytes] at h
      show value.utf8ByteSize < 2 ^ 32
      omega

theorem takes_read (name : String) (h : f.Fits) : Read.Takes (f.type.read name) f.encode f := by
  cases f with
  | number value => exact (Reader.takes_number name value).map Field.number
  | single value => exact (Reader.takes_single name value).map Field.single
  | text value => exact (Reader.takes_text name h).map Field.text

/-- A field is told from its bytes and from what follows them. -/
theorem encode_append_inj {rest rest' : List UInt8} (htype : f.type = g.type) (hf : f.Fits)
    (hg : g.Fits) (h : f.encode ++ rest = g.encode ++ rest') : f = g ∧ rest = rest' := by
  have hread := takes_read "" hf ⟨f.encode ++ rest, 0⟩ rest rfl
  have hread' := takes_read "" hg ⟨f.encode ++ rest, 0⟩ rest' h
  rw [htype, hread'] at hread
  injection hread with hvalue hstate
  injection hstate with _ hposition
  have hlength : f.encode.length = g.encode.length := by omega
  exact ⟨hvalue.symm, (List.append_inj h hlength).2⟩

/-- Fields of known types are told from their bytes. -/
theorem encodeAll_inj (htypes : fs.map type = gs.map type) (hfs : ∀ f ∈ fs, f.Fits)
    (hgs : ∀ g ∈ gs, g.Fits) (h : encodeAll fs = encodeAll gs) : fs = gs := by
  induction fs generalizing gs with
  | nil => exact (List.map_eq_nil_iff.mp htypes.symm).symm
  | cons f fs ih =>
      cases gs with
      | nil => cases htypes
      | cons g gs =>
          rw [List.map_cons, List.map_cons, List.cons.injEq] at htypes
          rw [List.forall_mem_cons] at hfs hgs
          rw [encodeAll, encodeAll, List.flatMap_cons, List.flatMap_cons] at h
          obtain ⟨rfl, hrest⟩ := encode_append_inj htypes.1 hfs.1 hgs.1 h
          rw [ih htypes.2 hfs.2 hgs.2 hrest]

end Field

end Wire

end Realm
