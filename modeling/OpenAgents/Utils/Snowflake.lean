import OpenAgents.Lib.JsText
import OpenAgents.Lib.Numerals
import Mathlib.Data.List.Nodup

/- Identifiers of 16 hexadecimal digits: a time offset and a sequence number, put together from two
   32-bit halves. Numbers are integers, which the operators of the source cut to 32 bits. -/
namespace Snowflakes
open JsText Numerals

def EPOCH : Int := 1420070400000
def MAX_SEQ : Nat := 0x3fffff

def isHexUnit (c : CodeUnit) : Bool := isDigit c || (97 ≤ c && c ≤ 102)

/- `value.length === 16 && PATTERN.test(value)` -/
def valid (value : JsString) : Bool := value.length == 16 && value.all isHexUnit

structure Snowflake where
  text : JsString
  shaped : valid text = true
  deriving DecidableEq, Repr

/- `n.toString(16)`; the fuel exceeds the number of digits. -/
def toHexFuel : Nat → Nat → JsString
  | 0, _ => []
  | fuel + 1, n => if n < 16 then [hexDigit n] else toHexFuel fuel (n / 16) ++ [hexDigit (n % 16)]

def toHex (n : Nat) : JsString := toHexFuel (n + 1) n

def padStart (s : JsString) (length : Nat) (fill : CodeUnit) : JsString := List.replicate (length - s.length) fill ++ s

def HEX4 (i : Nat) : JsString := padStart (toHex i) 4 48

/- What `>>>`, `<<`, `|` and `&` take of a number. -/
def toInt32 (n : Int) : BitVec 32 := BitVec.ofInt 32 n

def halves (dt seq : Int) : BitVec 32 × BitVec 32 :=
  let dtLo := dt.tmod 1024
  let hi := (dt - dtLo) / 1024
  (toInt32 hi, toInt32 dtLo <<< 22 ||| toInt32 seq)

def groupsText (hi lo : BitVec 32) : JsString :=
  HEX4 (hi >>> 16 &&& 0xffff#32).toNat ++ HEX4 (hi &&& 0xffff#32).toNat ++
    HEX4 (lo >>> 16 &&& 0xffff#32).toNat ++ HEX4 (lo &&& 0xffff#32).toNat

def digitOf (c : CodeUnit) : Nat := if c ≤ 57 then c.toNat - 48 else c.toNat - 87

/- `Number.parseInt(digits, 16)` of hexadecimal digits. -/
def parseHex (digits : JsString) : Nat := value 16 digitOf digits

def toBigInt (id : Snowflake) : Nat :=
  let hi := parseHex (id.text.take 8)
  let lo := parseHex ((id.text.drop 8).take 8)
  hi <<< 32 ||| lo

def getSequence (id : Snowflake) : Nat :=
  (toInt32 (parseHex ((id.text.drop 8).take 8)) &&& BitVec.ofNat 32 MAX_SEQ).toNat

def getTimestamp (id : Snowflake) : Int := (toBigInt id >>> 22 : Nat) + EPOCH

/- The order of texts in the language, by code units. -/
def Before (a b : JsString) : Prop := List.Lex (fun c d => c.toNat < d.toNat) a b

theorem hexDigit_unit {d : Nat} (small : d < 16) : isHexUnit (hexDigit d) = true ∧ digitOf (hexDigit d) = d := by
  have each : ∀ k : Fin 16, isHexUnit (hexDigit k.1) = true ∧ digitOf (hexDigit k.1) = k.1 := by decide
  exact each ⟨d,small⟩

theorem toHexFuel_digits (fuel n : Nat) : ∀ c ∈ toHexFuel fuel n, isHexUnit c = true := by
  induction fuel generalizing n with
  | zero => simp [toHexFuel]
  | succ fuel ih =>
    rw [toHexFuel]
    split
    next small => simpa using (hexDigit_unit small).1
    next =>
      intro c mem
      rcases List.mem_append.mp mem with early | last
      · exact ih (n / 16) c early
      · rw [List.mem_singleton.mp last]
        exact (hexDigit_unit (Nat.mod_lt n (by omega))).1

theorem toHexFuel_value {fuel n : Nat} (enough : n < fuel) : value 16 digitOf (toHexFuel fuel n) = n := by
  induction fuel generalizing n with
  | zero => omega
  | succ fuel ih =>
    rw [toHexFuel]
    split
    next small => simp [(hexDigit_unit small).2]
    next =>
      rw [value_append, ih (by omega)]
      simp only [List.length_singleton, value_cons, List.length_nil, value_nil, (hexDigit_unit (Nat.mod_lt n (by omega : 0 < 16))).2]
      omega

theorem toHexFuel_length {fuel n digits : Nat} (some' : 0 < digits) (small : n < 16 ^ digits) :
    (toHexFuel fuel n).length ≤ digits := by
  induction fuel generalizing n digits with
  | zero => simp [toHexFuel]
  | succ fuel ih =>
    rw [toHexFuel]
    split
    · exact some'
    next large =>
      obtain ⟨fewer,rfl⟩ : ∃ fewer, digits = fewer + 1 := ⟨digits - 1,by omega⟩
      have several : 0 < fewer := by
        rcases Nat.eq_zero_or_pos fewer with rfl | several
        · omega
        · exact several
      have shorter := ih several (n := n / 16) (by rw [Nat.pow_succ] at small; omega)
      rw [List.length_append, List.length_singleton]
      omega

theorem padStart_value (s : JsString) (length : Nat) : value 16 digitOf (padStart s length 48) = value 16 digitOf s := by
  rw [padStart, value_append]
  have zeros : ∀ k, value 16 digitOf (List.replicate k 48) = 0 := by
    intro k
    induction k with
    | zero => rfl
    | succ k ih =>
      have zero : digitOf 48 = 0 := rfl
      rw [List.replicate_succ, value_cons, ih, zero, Nat.zero_mul]
  rw [zeros, Nat.zero_mul, Nat.zero_add]

/-- A group of four digits. -/
theorem group_spec {i : Nat} (small : i < 65536) :
    (HEX4 i).length = 4 ∧ (∀ c ∈ HEX4 i, isHexUnit c = true) ∧ value 16 digitOf (HEX4 i) = i := by
  refine ⟨?_,fun c mem => ?_,?_⟩
  · have short : (toHex i).length ≤ 4 := toHexFuel_length (by omega) small
    rw [HEX4, padStart, List.length_append, List.length_replicate]
    omega
  · rcases List.mem_append.mp mem with fill | digit
    · rw [List.eq_of_mem_replicate fill]
      decide
    · exact toHexFuel_digits _ i c digit
  · rw [HEX4, padStart_value]
    exact toHexFuel_value (Nat.lt_succ_self i)

theorem low_group (word : BitVec 32) : (word &&& 0xffff#32).toNat = word.toNat % 65536 := by
  rw [BitVec.toNat_and]
  exact Nat.and_two_pow_sub_one_eq_mod word.toNat 16

theorem high_group (word : BitVec 32) : (word >>> 16 &&& 0xffff#32).toNat = word.toNat / 65536 := by
  have bound := word.isLt
  rw [low_group, BitVec.toNat_ushiftRight, Nat.shiftRight_eq_div_pow]
  omega

theorem groupsText_spec (hi lo : BitVec 32) :
    valid (groupsText hi lo) = true ∧ value 16 digitOf (groupsText hi lo) = hi.toNat * 2 ^ 32 + lo.toNat := by
  have hiBound := hi.isLt
  have loBound := lo.isLt
  obtain ⟨l1,d1,v1⟩ := group_spec (i := hi.toNat / 65536) (by omega)
  obtain ⟨l2,d2,v2⟩ := group_spec (i := hi.toNat % 65536) (by omega)
  obtain ⟨l3,d3,v3⟩ := group_spec (i := lo.toNat / 65536) (by omega)
  obtain ⟨l4,d4,v4⟩ := group_spec (i := lo.toNat % 65536) (by omega)
  rw [groupsText, high_group, low_group, high_group, low_group]
  constructor
  · simp only [valid, List.length_append, l1, l2, l3, l4, List.all_append, Bool.and_eq_true, List.all_eq_true]
    exact ⟨rfl,⟨⟨d1,d2⟩,d3⟩,d4⟩
  · rw [value_append, value_append, value_append, v1, v2, v3, v4, l2, l3, l4]
    omega

def formatParts (dt seq : Int) : Snowflake :=
  ⟨groupsText (halves dt seq).1 (halves dt seq).2,(groupsText_spec _ _).1⟩

inductive Timelike where
  | date (time : Int)
  | number (time : Int)
  | snowflake (id : Snowflake)
  deriving DecidableEq, Repr

def lowerbound : Timelike → Snowflake
  | .date time => formatParts (time - EPOCH) 0
  | .number time => formatParts (time - EPOCH) 0
  | .snowflake id => id

def upperbound : Timelike → Snowflake
  | .date time => formatParts (time - EPOCH) MAX_SEQ
  | .number time => formatParts (time - EPOCH) MAX_SEQ
  | .snowflake id => id

/-- The 64 bits of an identifier as one number. -/
def Snowflake.bits (id : Snowflake) : Nat := parseHex id.text

theorem shaped_iff {text : JsString} : valid text = true ↔ text.length = 16 ∧ ∀ c ∈ text, isHexUnit c = true := by
  simp [valid]

theorem hex_ordered : Ordered 16 digitOf (fun c d => c.toNat < d.toNat) fun c => isHexUnit c = true := by
  have range : ∀ c : CodeUnit, isHexUnit c = true →
      (48 ≤ c.toNat ∧ c.toNat ≤ 57 ∧ digitOf c = c.toNat - 48) ∨ (97 ≤ c.toNat ∧ c.toNat ≤ 102 ∧ digitOf c = c.toNat - 87) := by
    intro c hex
    simp only [isHexUnit, isDigit, Bool.or_eq_true, Bool.and_eq_true, decide_eq_true_eq, UInt16.le_iff_toNat_le,
      UInt16.reduceToNat] at hex
    simp only [digitOf, UInt16.le_iff_toNat_le, UInt16.reduceToNat]
    rcases hex with ⟨low,high⟩ | ⟨low,high⟩
    · exact .inl ⟨low,high,if_pos high⟩
    · exact .inr ⟨low,high,if_neg (by omega)⟩
  refine ⟨fun c hex => ?_,fun c d hexC hexD => ?_,fun c d hexC hexD same => ?_⟩
  · have at' := range c hex
    omega
  · have atC := range c hexC
    have atD := range d hexD
    omega
  · have atC := range c hexC
    have atD := range d hexD
    exact UInt16.toNat_inj.mp (by omega)

theorem before_iff (a b : Snowflake) : Before a.text b.text ↔ a.bits < b.bits := by
  obtain ⟨lengthA,hexA⟩ := shaped_iff.mp a.shaped
  obtain ⟨lengthB,hexB⟩ := shaped_iff.mp b.shaped
  exact lex_iff_value hex_ordered (by rw [lengthA, lengthB]) hexA hexB

/-- The two halves of the text are the two halves of the bits. -/
theorem bits_halves (id : Snowflake) : id.bits = parseHex (id.text.take 8) * 2 ^ 32 + parseHex ((id.text.drop 8).take 8) ∧
    parseHex ((id.text.drop 8).take 8) < 2 ^ 32 := by
  obtain ⟨length,hex⟩ := shaped_iff.mp id.shaped
  have rest : (id.text.drop 8).length = 8 := by rw [List.length_drop, length]
  have whole : (id.text.drop 8).take 8 = id.text.drop 8 := List.take_of_length_le (by omega)
  rw [whole]
  constructor
  · have cut := value_append 16 digitOf (id.text.take 8) (id.text.drop 8)
    rw [List.take_append_drop, rest] at cut
    exact cut
  · have digits : ∀ c ∈ id.text.drop 8, digitOf c < 16 := fun c mem => hex_ordered.below c (hex c (List.mem_of_mem_drop mem))
    have bound := value_lt digits
    rw [rest] at bound
    exact bound

theorem toBigInt_bits (id : Snowflake) : toBigInt id = id.bits := by
  obtain ⟨cut,low⟩ := bits_halves id
  have joined := Nat.two_pow_add_eq_or_of_lt low (parseHex (id.text.take 8))
  rw [Nat.mul_comm] at joined
  rw [cut, joined, toBigInt, Nat.shiftLeft_eq, Nat.mul_comm]

theorem getTimestamp_bits (id : Snowflake) : getTimestamp id = (id.bits / 2 ^ 22 : Nat) + EPOCH := by
  rw [getTimestamp, toBigInt_bits, Nat.shiftRight_eq_div_pow]

theorem getSequence_bits (id : Snowflake) : getSequence id = id.bits % 2 ^ 22 := by
  obtain ⟨cut,low⟩ := bits_halves id
  have mask : MAX_SEQ % 2 ^ 32 = 2 ^ 22 - 1 := rfl
  rw [getSequence, BitVec.toNat_and, BitVec.toNat_ofNat, mask, Nat.and_two_pow_sub_one_eq_mod, toInt32, BitVec.toNat_ofInt, cut]
  omega

/-- The offsets and sequence numbers that an identifier has room for. -/
structure Fits (dt seq : Int) : Prop where
  early : 0 ≤ dt
  late : dt < 2 ^ 42
  low : 0 ≤ seq
  high : seq ≤ MAX_SEQ

theorem formatParts_bits {dt seq : Int} (fits : Fits dt seq) : (formatParts dt seq).bits = dt.toNat * 2 ^ 22 + seq.toNat := by
  obtain ⟨early,late,low,high⟩ := fits
  have most : (MAX_SEQ : Int) = 4194303 := rfl
  obtain ⟨d,rfl⟩ := Int.eq_ofNat_of_zero_le early
  obtain ⟨s,rfl⟩ := Int.eq_ofNat_of_zero_le low
  have dtLo : (d : Int).tmod 1024 = (d % 1024 : Nat) := by rw [Int.tmod_eq_emod_of_nonneg early]; rfl
  have hi : ((d : Int) - (d % 1024 : Nat)) / 1024 = (d / 1024 : Nat) := by omega
  have hiWord : (toInt32 (d / 1024 : Nat)).toNat = d / 1024 := by
    rw [toInt32, BitVec.toNat_ofInt]
    omega
  have loWord : (toInt32 (d % 1024 : Nat) <<< 22 ||| toInt32 s).toNat = d % 1024 * 2 ^ 22 + s := by
    have dtWord : (toInt32 (d % 1024 : Nat)).toNat = d % 1024 := by
      rw [toInt32, BitVec.toNat_ofInt]
      omega
    have seqWord : (toInt32 s).toNat = s := by
      rw [toInt32, BitVec.toNat_ofInt]
      omega
    have shifted : (toInt32 (d % 1024 : Nat) <<< 22).toNat = 2 ^ 22 * (d % 1024) := by
      rw [BitVec.toNat_shiftLeft, dtWord, Nat.shiftLeft_eq]
      omega
    rw [BitVec.toNat_or, shifted, seqWord, ← Nat.two_pow_add_eq_or_of_lt (by omega), Nat.mul_comm]
  have text := (groupsText_spec (halves d s).1 (halves d s).2).2
  simp only [halves, dtLo, hi, hiWord, loWord] at text
  rw [Snowflake.bits, parseHex, formatParts]
  simp only [halves, dtLo, hi, Int.toNat_natCast]
  rw [text]
  omega

/-- The identifiers of a time lie between its two bounds, and no others do. -/
theorem bounds_bracket {time : Int} (early : EPOCH ≤ time) (late : time < EPOCH + 2 ^ 42) (id : Snowflake) :
    getTimestamp id = time ↔
      ¬ Before id.text (formatParts (time - EPOCH) 0).text ∧ ¬ Before (formatParts (time - EPOCH) MAX_SEQ).text id.text := by
  have most : (MAX_SEQ : Int) = 4194303 := rfl
  have lower := @formatParts_bits (time - EPOCH) 0 ⟨by omega,by omega,by omega,by omega⟩
  have upper := @formatParts_bits (time - EPOCH) MAX_SEQ ⟨by omega,by omega,by omega,by omega⟩
  rw [before_iff, before_iff, lower, upper, getTimestamp_bits, most]
  omega

/-- Identifiers give back the offset and the sequence number they are formatted from, sort as texts the way
    these pairs sort, and lie between the bounds of a time exactly if they are of that time. -/
theorem snowflake_sorts (dt seq dt' seq' : Int) (fits : Fits dt seq) (fits' : Fits dt' seq') :
    getTimestamp (formatParts dt seq) = dt + EPOCH ∧ getSequence (formatParts dt seq) = seq ∧
      (Before (formatParts dt seq).text (formatParts dt' seq').text ↔ dt < dt' ∨ dt = dt' ∧ seq < seq') ∧
      ∀ timelike ∈ [Timelike.date (EPOCH + dt), Timelike.number (EPOCH + dt)], ∀ id : Snowflake,
        getTimestamp id = EPOCH + dt ↔
          ¬ Before id.text (lowerbound timelike).text ∧ ¬ Before (upperbound timelike).text id.text := by
  have most : (MAX_SEQ : Int) = 4194303 := rfl
  have bits := formatParts_bits fits
  have bits' := formatParts_bits fits'
  obtain ⟨early,late,low,high⟩ := fits
  obtain ⟨early',late',low',high'⟩ := fits'
  refine ⟨?_,?_,?_,?_⟩
  · rw [getTimestamp_bits, bits]
    omega
  · rw [getSequence_bits, bits]
    omega
  · rw [before_iff, bits, bits']
    omega
  · intro timelike mem id
    have bracket := @bounds_bracket (EPOCH + dt) (by omega) (by omega) id
    rcases List.mem_pair.mp mem with rfl | rfl
    · exact bracket
    · exact bracket

theorem last_snowflake_sorts : getTimestamp (formatParts 4398046511103 4194303) = 4398046511103 + EPOCH ∧
    getSequence (formatParts 4398046511103 4194303) = (4194303 : Int) ∧
    (Before (formatParts 4398046511103 4194303).text (formatParts 1023 7).text ↔
      (4398046511103 : Int) < 1023 ∨ (4398046511103 : Int) = 1023 ∧ (4194303 : Int) < 7) ∧
    ∀ timelike ∈ [Timelike.date (EPOCH + 4398046511103), Timelike.number (EPOCH + 4398046511103)], ∀ id : Snowflake,
      getTimestamp id = EPOCH + 4398046511103 ↔
        ¬ Before id.text (lowerbound timelike).text ∧ ¬ Before (upperbound timelike).text id.text :=
  snowflake_sorts 4398046511103 4194303 1023 7 ⟨by decide,by decide,by decide,by decide⟩ ⟨by decide,by decide,by decide,by decide⟩

example : (formatParts 4398046511103 4194303).text = js "ffffffffffffffff" := by decide +kernel

/- `generate` of a `Source`: the identifier, and the counter after it. -/
def generate (seq : Nat) (timestamp : Int) : Snowflake × Nat :=
  let next := (seq + 1) &&& MAX_SEQ
  (formatParts (timestamp - EPOCH) next, next)

/- The identifiers of one source, called at these times. -/
def generateAll : Nat → List Int → List Snowflake
  | _, [] => []
  | seq, timestamp :: later => (generate seq timestamp).1 :: generateAll (generate seq timestamp).2 later

theorem generateAll_get (seq : Nat) (times : List Int) (i : Nat) :
    (generateAll seq times)[i]? = times[i]?.map fun time => formatParts (time - EPOCH) ((seq + 1 + i) % 2 ^ 22 : Nat) := by
  have counted : ∀ n, n &&& MAX_SEQ = n % 2 ^ 22 := fun n => Nat.and_two_pow_sub_one_eq_mod n 22
  induction times generalizing seq i with
  | nil => rfl
  | cons time later ih =>
    rw [generateAll, generate, counted]
    cases i with
    | zero => rfl
    | succ i =>
      have next : ((seq + 1) % 2 ^ 22 + 1 + i) % 2 ^ 22 = (seq + 1 + (i + 1)) % 2 ^ 22 := by omega
      rw [List.getElem?_cons_succ, List.getElem?_cons_succ, ih, next]

/-- A source gives an identifier twice exactly if it is called at one millisecond again after a multiple of 2^22 calls. -/
theorem source_repeats_iff (seq : Nat) (times : List Int) (inRange : ∀ time ∈ times, EPOCH ≤ time ∧ time < EPOCH + 2 ^ 42) :
    (generateAll seq times).Nodup ↔ ∀ i j, i < j → j < times.length → times[i]? = times[j]? → ¬ 2 ^ 22 ∣ j - i := by
  have most : (MAX_SEQ : Int) = 4194303 := rfl
  have long : (generateAll seq times).length = times.length := by
    induction times generalizing seq with
    | nil => rfl
    | cons time later ih => rw [generateAll, List.length_cons, ih _ (List.forall_mem_cons.mp inRange).2, List.length_cons]
  rw [List.nodup_iff_getElem?_ne_getElem?, long]
  refine forall₂_congr fun i j => imp_congr_right fun less => imp_congr_right fun inside => ?_
  have inside' : i < times.length := Nat.lt_trans less inside
  rw [generateAll_get, generateAll_get, List.getElem?_eq_getElem inside, List.getElem?_eq_getElem inside', Option.map_some, Option.map_some,
    Ne, Option.some_inj, Option.some_inj]
  obtain ⟨early,late⟩ := inRange _ (List.getElem_mem inside')
  obtain ⟨early',late'⟩ := inRange _ (List.getElem_mem inside)
  have bits := @formatParts_bits (times[i] - EPOCH) ((seq + 1 + i) % 2 ^ 22 : Nat) ⟨by omega,by omega,by omega,by omega⟩
  have bits' := @formatParts_bits (times[j] - EPOCH) ((seq + 1 + j) % 2 ^ 22 : Nat) ⟨by omega,by omega,by omega,by omega⟩
  refine Iff.trans (not_congr ⟨fun same => ?_,?_⟩) not_and
  · rw [same, bits'] at bits
    exact ⟨by omega,by omega⟩
  · rintro ⟨same,often⟩
    have counted : (seq + 1 + i) % 2 ^ 22 = (seq + 1 + j) % 2 ^ 22 := by omega
    rw [same, counted]

theorem three_at_once : (generateAll 4194302 [1420070400009, 1420070400009, 1420070400009]).Nodup :=
  (source_repeats_iff _ _ (by decide)).mpr fun i j less inside _ often => by
    have near : j < 3 := inside
    omega

end Snowflakes
