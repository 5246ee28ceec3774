import Fusion.Hash.ByteOrder
import Fusion.Hash.Padding
import Fusion.Library.Rotation

/-!
# SHA1 computes the standard's hash

The five lines of a loop iteration are one line under five names for the registers, so an iteration
is five rounds of the standard and a loop of four iterations is twenty.
-/

namespace Fusion.SHA1

open Words

/-- The registers under the names they have one line later. -/
def turn (r : Registers) : Registers := ⟨r.e, r.a, r.b, r.c, r.d⟩

/-- The registers as the working variables of the standard. -/
def working (r : Registers) : SecureHash.SHA1.Variables := ⟨r.a, r.b, r.c, r.d, r.e⟩

section Line

variable (f : UInt32 → UInt32 → UInt32 → UInt32) (constant word : UInt32) (r : Registers)

/-- The line of an iteration that adds to `e`. -/
def lineE : Registers :=
  { r with e := r.e + (rotate r.a 5 + f r.b r.c r.d + word + constant), b := rotate r.b 30 }

def lineD : Registers :=
  { r with d := r.d + (rotate r.e 5 + f r.a r.b r.c + word + constant), a := rotate r.a 30 }

def lineC : Registers :=
  { r with c := r.c + (rotate r.d 5 + f r.e r.a r.b + word + constant), e := rotate r.e 30 }

def lineB : Registers :=
  { r with b := r.b + (rotate r.c 5 + f r.d r.e r.a + word + constant), d := rotate r.d 30 }

def lineA : Registers :=
  { r with a := r.a + (rotate r.b 5 + f r.c r.d r.e + word + constant), c := rotate r.c 30 }

theorem working_turn_lineE :
    working (turn (lineE f constant word r)) =
      SecureHash.SHA1.round f constant word (working r) := by
  have sum : r.e + (rotate r.a 5 + f r.b r.c r.d + word + constant) =
      rotateLeft r.a 5 + f r.b r.c r.d + r.e + constant + word := by
    change r.e + (rotateLeft r.a 5 + f r.b r.c r.d + word + constant) = _
    ac_rfl
  simp only [working, turn, lineE, SecureHash.SHA1.round, sum]
  rfl

end Line

/-- The five line forms in the order of an iteration. -/
def lineForms (f : UInt32 → UInt32 → UInt32 → UInt32) (constant : UInt32) :
    List (UInt32 → Registers → Registers) :=
  [lineE f constant, lineD f constant, lineC f constant, lineB f constant, lineA f constant]

theorem renames_lineForms (f : UInt32 → UInt32 → UInt32 → UInt32) (constant : UInt32) :
    Rotation.Renames turn (lineForms f constant) := by
  simp only [Rotation.Renames, lineForms, List.isChain_cons_cons]
  exact ⟨fun _ _ => rfl, fun _ _ => rfl, fun _ _ => rfl, fun _ _ => rfl, .singleton _⟩

theorem working_iteration (f : UInt32 → UInt32 → UInt32 → UInt32) (constant : UInt32)
    (word : Nat → UInt32) (offset : Nat) (r : Registers) :
    working (iteration f constant word offset r) =
      (List.range' offset 5).foldl (fun v t => SecureHash.SHA1.round f constant (word t) v)
        (working r) := by
  have unrolled : iteration f constant word offset r =
      Rotation.unrolled (lineForms f constant) ((List.range' offset 5).map word) r := rfl
  have rolled := Rotation.unrolled_eq_rolled (renames_lineForms f constant) (fun _ => rfl)
    (show ((List.range' offset 5).map word).length = _ by
      rw [List.length_map, List.length_range']; rfl) r
  rw [unrolled, lineForms, rolled,
    Rotation.view_rolled (working_turn_lineE f constant), List.foldl_map]

theorem working_round {f : UInt32 → UInt32 → UInt32 → UInt32} {constant : UInt32}
    {word : Nat → UInt32} {input : List UInt8} {first : Nat} {r : Registers}
    {v : SecureHash.SHA1.Variables}
    (round_eq : ∀ t, 5 * first ≤ t → t < 5 * first + 20 →
      SecureHash.SHA1.logical t = f ∧ SecureHash.SHA1.constant t = constant ∧
        SecureHash.SHA1.schedule (SecureHash.blockWord input) t = word t)
    (before : working r = SecureHash.SHA1.rounds input (5 * first) v) :
    working (round f constant word first r) = SecureHash.SHA1.rounds input (5 * first + 20) v := by
  rw [round, Rotation.view_iterations (fun r i => working_iteration f constant word (5 * i) r),
    before, SecureHash.SHA1.rounds, SecureHash.SHA1.rounds,
    SecureHash.foldl_range_add]
  apply List.foldl_ext
  intro v t listed
  obtain ⟨low, high⟩ := List.mem_range'_1.mp listed
  obtain ⟨function_eq, constant_eq, word_eq⟩ := round_eq t low high
  rw [function_eq, constant_eq, word_eq]

/-- The word that the loop computes at index `i`. -/
def nextWord (word : Nat → UInt32) (i : Nat) : UInt32 :=
  rotate (word (i - 3) ^^^ word (i - 8) ^^^ word (i - 14) ^^^ word (i - 16)) 1

theorem nextWord_eq_schedule {message word : Nat → UInt32} {t : Nat} (late : 16 ≤ t)
    (earlier : ∀ i, i < t → word i = SecureHash.SHA1.schedule message i) :
    nextWord word t = SecureHash.SHA1.schedule message t := by
  rw [nextWord, earlier (t - 3) (by omega), earlier (t - 8) (by omega),
    earlier (t - 14) (by omega), earlier (t - 16) (by omega)]
  conv_rhs => rw [SecureHash.SHA1.schedule, if_pos late]
  rfl

theorem extend_eq_schedule (input : List UInt8) :
    extend 64 ((List.range 16).map fun i => swap (input32 input i)) =
      (List.range 80).map (SecureHash.SHA1.schedule (SecureHash.blockWord input)) := by
  have swapped : ((List.range 16).map fun i => swap (input32 input i)) =
      (List.range 16).map (SecureHash.SHA1.schedule (SecureHash.blockWord input)) := by
    refine map_constSwap_input32 fun t below => ?_
    rw [SecureHash.SHA1.schedule, if_neg (Nat.not_le.mpr below)]
  have extend_succ : ∀ count words, extend (count + 1) words =
      extend count (words ++ [nextWord (fun t => words.getD t 0) words.length]) :=
    fun _ _ => rfl
  rw [swapped]
  exact SecureHash.extend_map_range (fun _ => rfl) extend_succ
    (fun _ _ late earlier => nextWord_eq_schedule late earlier) (Nat.le_refl 16) 64

theorem f1_eq_choose : f1 = choose :=
  funext fun b => funext fun c => funext fun d => xor_and_xor_eq_choose b c d

theorem f3_eq_majority : f3 = majority :=
  funext fun b => funext fun c => funext fun d => or_or_eq_majority b c d

theorem working_rounds {word : Nat → UInt32} {input : List UInt8}
    (word_eq : ∀ t, t < 80 → SecureHash.SHA1.schedule (SecureHash.blockWord input) t = word t)
    (r : Registers) :
    working (round f2 0xca62c1d6 word 12 (round f3 0x8f1bbcdc word 8
        (round f2 0x6ed9eba1 word 4 (round f1 0x5a827999 word 0 r)))) =
      SecureHash.SHA1.rounds input 80 (working r) := by
  rw [f1_eq_choose, f3_eq_majority]
  refine working_round (fun t low high => ⟨?_, ?_, word_eq t (by omega)⟩) ?_
  · rw [SecureHash.SHA1.logical, if_neg (by omega), if_neg (by omega), if_neg (by omega)]
    rfl
  · rw [SecureHash.SHA1.constant, if_neg (by omega), if_neg (by omega), if_neg (by omega)]
  refine working_round (fun t low high => ⟨?_, ?_, word_eq t (by omega)⟩) ?_
  · rw [SecureHash.SHA1.logical, if_neg (by omega), if_neg (by omega), if_pos (by omega)]
  · rw [SecureHash.SHA1.constant, if_neg (by omega), if_neg (by omega), if_pos (by omega)]
  refine working_round (fun t low high => ⟨?_, ?_, word_eq t (by omega)⟩) ?_
  · rw [SecureHash.SHA1.logical, if_neg (by omega), if_pos (by omega)]
    rfl
  · rw [SecureHash.SHA1.constant, if_neg (by omega), if_pos (by omega)]
  refine working_round (fun t low high => ⟨?_, ?_, word_eq t (by omega)⟩) rfl
  · rw [SecureHash.SHA1.logical, if_pos (by omega)]
  · rw [SecureHash.SHA1.constant, if_pos (by omega)]

theorem added_eq (digest : Vector UInt32 5) {r : Registers} {v : SecureHash.SHA1.Variables}
    (ended : working r = v) :
    #v[digest.get 0 + r.a, digest.get 1 + r.b, digest.get 2 + r.c, digest.get 3 + r.d,
        digest.get 4 + r.e] =
      #v[v.a + digest.get 0, v.b + digest.get 1, v.c + digest.get 2, v.d + digest.get 3,
        v.e + digest.get 4] := by
  subst ended
  simp only [working, UInt32.add_comm]

theorem processBlock_eq_compress : processBlock = SecureHash.SHA1.compress := by
  funext digest input
  have word_eq : ∀ t, t < 80 → SecureHash.SHA1.schedule (SecureHash.blockWord input) t =
      (extend 64 ((List.range 16).map fun i => swap (input32 input i))).getD t 0 := by
    intro t below
    rw [extend_eq_schedule, SecureHash.getD_map_range _ below]
  unfold processBlock SecureHash.SHA1.compress
  exact added_eq digest (working_rounds word_eq _)

theorem implements_sha1 : algorithm.Implements SecureHash.sha1 where
  initialDigest_eq := by decide
  processBlock_eq := processBlock_eq_compress
  lengthBytes_eq := bigEndianBytes_eq
  wordBytes_eq digest := congrArg (List.flatMap · digest.toList) (funext bigEndianWord_eq)
  length_output := SecureHash.length_hashBytes

/-- `Reset`, one `Process` and `Finish` write the SHA-1 digest of the message. -/
theorem oneShot_eq_sha1 (message buffer : List UInt8) (short : message.length < 2 ^ 61) :
    MDHash.oneShot algorithm message buffer =
      (SecureHash.sha1.digest message).take buffer.length ++ buffer.drop 20 :=
  MDHash.oneShot_eq_digest_of_implements implements_sha1 short buffer

theorem oneShot_eq_sha1_spilled :
    (List.replicate 60 0).length < 2 ^ 61 ∧
      MDHash.oneShot algorithm (List.replicate 60 0) (List.replicate 20 0) =
        (SecureHash.sha1.digest (List.replicate 60 0)).take 20 ++ (List.replicate 20 0).drop 20 :=
  ⟨by decide, oneShot_eq_sha1 _ _ (by decide)⟩

example : MDHash.oneShot algorithm [97, 98, 99] (List.replicate 20 0) =
      [0xa9, 0x99, 0x3e, 0x36, 0x47, 0x06, 0x81, 0x6a, 0xba, 0x3e, 0x25, 0x71,
        0x78, 0x50, 0xc2, 0x6c, 0x9c, 0xd0, 0xd8, 0x9d] := by
  decide +kernel

end Fusion.SHA1
