import BbMonitor.Lib.Codecs
import Mathlib.Algebra.Order.Ring.Nat

/-!
# Codecs for numbers, texts and lists

A natural number is written in groups of seven bits, the lowest first, and every byte but the
last has its highest bit set.  An integer is written as the natural number that it has in the
order 0, -1, 1, -2, 2 and so on.  Texts and blocks of a list have their length in front, and a
list ends with an empty block.
-/

namespace BbMonitor

variable {ε α : Type}

/-! ## Numbers -/

def writeVarint (n : ℕ) : List UInt8 :=
  if n < 128 then [UInt8.ofNat n] else UInt8.ofNat (n % 128 + 128) :: writeVarint (n / 128)

def takeVarint (short : ε) : List UInt8 → Except ε (ℕ × List UInt8)
  | [] => .error short
  | b :: rest =>
      if b.toNat < 128 then .ok (b.toNat, rest)
      else (takeVarint short rest).map fun p => (b.toNat - 128 + 128 * p.1, p.2)

theorem takeVarint_writeVarint (short : ε) (n : ℕ) (rest : List UInt8) :
    takeVarint short (writeVarint n ++ rest) = .ok (n, rest) := by
  induction n using Nat.strongRecOn with
  | ind n ih =>
      rw [writeVarint]
      split
      · rename_i hlt
        have hbyte : (UInt8.ofNat n).toNat = n := Nat.mod_eq_of_lt (by omega)
        rw [List.singleton_append, takeVarint, hbyte, if_pos hlt]
      · rename_i hge
        have hbyte : (UInt8.ofNat (n % 128 + 128)).toNat = n % 128 + 128 :=
          Nat.mod_eq_of_lt (by omega)
        rw [List.cons_append, takeVarint, hbyte, if_neg (by omega), ih (n / 128) (by omega)]
        show Except.ok (n % 128 + 128 - 128 + 128 * (n / 128), rest) = _
        congr 2
        omega

theorem writeVarint_ne_nil (n : ℕ) : writeVarint n ≠ [] := by
  rw [writeVarint]
  split <;> exact List.cons_ne_nil _ _

/-- 0, -1, 1, -2, 2 and so on, in this order. -/
def zigzag (x : ℤ) : ℕ :=
  if 0 ≤ x then 2 * x.toNat else 2 * (-x).toNat - 1

def unzigzag (n : ℕ) : ℤ :=
  if n % 2 = 0 then (n / 2 : ℕ) else -((n / 2 : ℕ) + 1)

theorem unzigzag_zigzag (x : ℤ) : unzigzag (zigzag x) = x := by
  unfold zigzag unzigzag
  split <;> split <;> omega

/-- A number of a fixed number of bytes, the lowest byte first. -/
def writeFixed : ℕ → ℕ → List UInt8
  | 0, _ => []
  | k + 1, n => UInt8.ofNat n :: writeFixed k (n / 256)

def takeFixed (short : ε) : ℕ → List UInt8 → Except ε (ℕ × List UInt8)
  | 0, input => .ok (0, input)
  | _ + 1, [] => .error short
  | k + 1, b :: rest => (takeFixed short k rest).map fun p => (b.toNat + 256 * p.1, p.2)

theorem takeFixed_writeFixed (short : ε) {k n : ℕ} (hn : n < 256 ^ k) (rest : List UInt8) :
    takeFixed short k (writeFixed k n ++ rest) = .ok (n, rest) := by
  induction k generalizing n with
  | zero =>
      rw [Nat.pow_zero] at hn
      have hzero : n = 0 := by omega
      subst hzero
      rfl
  | succ k ih =>
      have hdiv : n / 256 < 256 ^ k := Nat.div_lt_of_lt_mul (by rwa [← Nat.pow_succ'])
      rw [writeFixed, List.cons_append, takeFixed, ih hdiv]
      show Except.ok (n % 256 + 256 * (n / 256), rest) = _
      rw [Nat.mod_add_div]

namespace Codec

def nat (short : ε) : Codec ε ℕ where
  encode := writeVarint
  decode := takeVarint short
  reads := takeVarint_writeVarint short

def int (short : ε) : Codec ε ℤ :=
  (nat short).via zigzag unzigzag unzigzag_zigzag

def int64 (short : ε) : Codec ε Int64 :=
  (int short).via Int64.toInt Int64.ofInt Int64.ofInt_toInt

def bits64 (short : ε) : Codec ε UInt64 where
  encode x := writeFixed 8 x.toNat
  decode := UInt64.ofNat <$> (takeFixed short 8 : Decoder ε ℕ)
  reads x := by
    have hreads : Reads (takeFixed short 8 : Decoder ε ℕ) (writeFixed 8 x.toNat) x.toNat :=
      takeFixed_writeFixed short x.toNat_lt
    have hmap := hreads.map UInt64.ofNat
    rwa [UInt64.ofNat_toNat] at hmap

/-- Nothing is written. -/
def nothing : Codec ε Unit where
  encode _ := []
  decode := pure ()
  reads _ := Reads.pure ()

end Codec

/-! ## Several values -/

/-- A number of values, one after the other. -/
def takeMany (d : Decoder ε α) : ℕ → Decoder ε (List α)
  | 0 => pure []
  | n + 1 => do
      let a ← d
      let as ← takeMany d n
      return a :: as

theorem reads_takeMany (c : Codec ε α) (as : List α) :
    Reads (takeMany c.decode as.length) (as.flatMap c.encode) as := by
  induction as with
  | nil => exact Reads.pure []
  | cons a as ih =>
      refine (c.reads a).bind ?_
      have hmap := ih.map (fun as => a :: as)
      rwa [map_eq_pure_bind] at hmap

/-- A block with a negative count has its size behind the count. -/
def skipSize (short : ε) (count : ℤ) : Decoder ε Unit :=
  if count < 0 then (fun _ => ()) <$> (Codec.int short).decode else pure ()

/-- The blocks up to an empty one; each takes a byte at least, so there is fuel enough. -/
def takeBlocks (short : ε) (d : Decoder ε α) : ℕ → Decoder ε (List α)
  | 0 => throw short
  | fuel + 1 => do
      let count ← (Codec.int short).decode
      if count = 0 then return []
      else
        skipSize short count
        let block ← takeMany d count.natAbs
        let others ← takeBlocks short d fuel
        return block ++ others

theorem reads_takeBlocks_nil (short : ε) (d : Decoder ε α) (fuel : ℕ) :
    Reads (takeBlocks short d (fuel + 1)) ((Codec.int short).encode 0) [] := by
  rw [← List.append_nil ((Codec.int short).encode 0)]
  refine ((Codec.int short).reads 0).bind ?_
  rw [if_pos rfl]
  exact Reads.pure []

theorem reads_takeBlocks_cons (short : ε) (c : Codec ε α) {as : List α} (has : as ≠ [])
    (fuel : ℕ) :
    Reads (takeBlocks short c.decode (fuel + 2))
      ((Codec.int short).encode as.length ++ as.flatMap c.encode ++ (Codec.int short).encode 0)
      as := by
  have hcount : (as.length : ℤ) ≠ 0 := by
    simpa using has
  have hskip : skipSize short (as.length : ℤ) = pure () := if_neg (by omega)
  have hothers : Reads (do
      let others ← takeBlocks short c.decode (fuel + 1)
      return as ++ others) ((Codec.int short).encode 0) as := by
    have hmap := (reads_takeBlocks_nil short c.decode fuel).map fun others => as ++ others
    rwa [map_eq_pure_bind, List.append_nil] at hmap
  rw [List.append_assoc]
  refine ((Codec.int short).reads as.length).bind ?_
  rw [if_neg hcount, hskip, pure_bind]
  exact (reads_takeMany c as).bind hothers

namespace Codec

def list (short : ε) (c : Codec ε α) : Codec ε (List α) where
  encode
    | [] => (int short).encode 0
    | a :: as =>
        (int short).encode (a :: as).length ++ (a :: as).flatMap c.encode ++
          (int short).encode 0
  decode := fun input => (takeBlocks short c.decode (input.length + 1)).run input
  reads
    | [], rest => reads_takeBlocks_nil short c.decode _ rest
    | a :: as, rest => by
        -- the count takes a byte
        obtain ⟨b, bs, hcount⟩ := List.exists_cons_of_ne_nil
          (writeVarint_ne_nil (zigzag (a :: as).length))
        have hencode : (int short).encode (a :: as).length = b :: bs := hcount
        have hreads := fun fuel =>
          reads_takeBlocks_cons short c (List.cons_ne_nil a as) fuel rest
        simp only [hencode, List.cons_append] at hreads ⊢
        exact hreads _

def byte (short : ε) : Codec ε UInt8 where
  encode b := [b]
  decode
    | [] => .error short
    | b :: rest => .ok (b, rest)
  reads _ _ := rfl

def text (short : ε) : Codec ε (List UInt8) where
  encode bytes := (int short).encode bytes.length ++ bytes.flatMap (byte short).encode
  decode := do
    let length ← (int short).decode
    takeMany (byte short).decode length.toNat
  reads bytes := ((int short).reads bytes.length).bind (reads_takeMany (byte short) bytes)

end Codec

end BbMonitor
