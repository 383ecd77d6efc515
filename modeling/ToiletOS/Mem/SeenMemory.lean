import ToiletOS.Mem.ScanReads
import ToiletOS.Mem.SelfMap

/-!
# Memory as the page tables show it

Code that only loads bytes works on the memory that the page tables show (`seen`), if every
address that it reads is mapped: `LoadsBytes.run_of_read` takes a run with a record of what is read
to one in which each access goes through the tables. So what `ToiletOS/Mem/ScanReads.lean` says of
`bitmap_scan` holds wherever the bitmap is mapped to (`bitmapScan_seen_run`).
-/

namespace ToiletOS

variable {α β : Type} {m : ByteMemory}

/-- Memory as the page tables show it. An address that is not mapped shows a byte that is full, in
which a scan has nothing to find. -/
def seen (m : ByteMemory) : ByteMemory := fun a =>
  match translate m a with
  | some x => m x
  | none => 0xff#8

theorem seen_of_translate {a x : BitVec 32} (h : translate m a = some x) : seen m a = m x := by
  rw [seen, h]

theorem translate_of_seen {a : BitVec 32} (h : seen m a ≠ 0xff#8) :
    ∃ x, translate m a = some x := by
  cases h_map : translate m a with
  | none => exact absurd (by rw [seen, h_map]) h
  | some x => exact ⟨x, rfl⟩

/-! ### Code that loads bytes -/

/-- Code that loads bytes and does nothing else. -/
def LoadsBytes : Kern α → Prop
  | .ret _ => True
  | .op o k => (∃ a, o = .load8 a) ∧ ∀ r, LoadsBytes (k r)
  | .mark _ p => LoadsBytes p
  | .stop _ => True

theorem LoadsBytes.bind {p : Kern α} {f : α → Kern β} (hp : LoadsBytes p)
    (hf : ∀ a, LoadsBytes (f a)) : LoadsBytes (p >>= f) := by
  induction p with
  | ret a => exact hf a
  | op o k ih => exact ⟨hp.1, fun r => ih r (hp.2 r)⟩
  | mark k p ih => exact ih hp
  | stop e => trivial

theorem loadsBytes_load8 (a : BitVec 32) : LoadsBytes (Kern.load8 a) :=
  ⟨⟨a, rfl⟩, fun _ => trivial⟩

/-- Nothing that has been read is forgotten. -/
theorem LoadsBytes.reads_mono {p : Kern α} (hp : LoadsBytes p) {s s' : ReadMemory} {r : α}
    (h : p.run readSem s = .ok (r, s')) {a : BitVec 32} (ha : a ∈ s.reads) : a ∈ s'.reads := by
  induction p generalizing s with
  | ret b =>
    obtain ⟨-, rfl⟩ : b = r ∧ s = s' := by simpa [Prog.run] using h
    exact ha
  | op o k ih =>
    obtain ⟨⟨x, rfl⟩, h_next⟩ := hp
    exact ih _ (h_next _) h (List.mem_append_left _ ha)
  | mark k p ih => exact ih hp h ha
  | stop e => cases h

/-- **Through the page tables** code that loads bytes does what it does on the memory that the
tables show. -/
theorem LoadsBytes.run_of_read {p : Kern α} (hp : LoadsBytes p) {s : ReadMemory}
    {l : List (BitVec 32)} {r : α} (h : p.run readSem ⟨seen m, l⟩ = .ok (r, s))
    (h_mapped : ∀ a ∈ s.reads, ∃ x, translate m a = some x) : p.run kernelSem m = .ok (r, m) := by
  induction p generalizing l with
  | ret b =>
    obtain ⟨rfl, -⟩ : b = r ∧ (⟨seen m, l⟩ : ReadMemory) = s := by simpa [Prog.run] using h
    rfl
  | op o k ih =>
    obtain ⟨⟨a, rfl⟩, h_next⟩ := hp
    have h_rest : (k (seen m a)).run readSem ⟨seen m, l ++ [a]⟩ = .ok (r, s) := h
    -- the address is one of those that the run has read, so it is mapped
    have h_read : a ∈ s.reads := (h_next _).reads_mono h_rest (by simp)
    obtain ⟨x, h_map⟩ := h_mapped a h_read
    rw [seen_of_translate h_map] at h_rest
    calc (Prog.op (S := kernelSig) (.load8 a) k).run kernelSem m
        = (k (m x)).run kernelSem m := run_load8 h_map k
      _ = .ok (r, m) := ih _ (h_next _) h_rest
  | mark k p ih => exact ih hp h
  | stop e => cases h

/-! ### The scan -/

theorem loadsBytes_scanBytes (btmp : Bitmap) (left : ℕ) (idxByte : BitVec 32) :
    LoadsBytes (scanBytes btmp left idxByte) := by
  induction left generalizing idxByte with
  | zero => exact (loadsBytes_load8 _).bind fun _ => trivial
  | succ left ih =>
    refine (loadsBytes_load8 _).bind fun byte => ?_
    split
    · exact ih _
    · trivial

theorem loadsBytes_scanBits (btmp : Bitmap) (idxByte : BitVec 32) (left : ℕ) (idxBit : BitVec 32) :
    LoadsBytes (scanBits btmp idxByte left idxBit) := by
  induction left generalizing idxBit with
  | zero => exact (loadsBytes_load8 _).bind fun _ => trivial
  | succ left ih =>
    refine (loadsBytes_load8 _).bind fun byte => ?_
    split
    · exact ih _
    · trivial

theorem loadsBytes_scanRun (btmp : Bitmap) (cnt : BitVec 32) (left : ℕ)
    (nextBit count : BitVec 32) :
    LoadsBytes (scanRun btmp cnt left nextBit count) := by
  induction left generalizing nextBit count with
  | zero => trivial
  | succ left ih =>
    have h_test : LoadsBytes (bitmapScanTest btmp nextBit) :=
      (loadsBytes_load8 _).bind fun _ => trivial
    refine h_test.bind fun isSet => ?_
    generalize (if isSet then 0#32 else count + 1#32) = count'
    change LoadsBytes (if count' = cnt then _ else _)
    split
    · trivial
    · exact ih _ _

theorem loadsBytes_bitmapScan (btmp : Bitmap) (cnt : BitVec 32) :
    LoadsBytes (bitmapScan btmp cnt) := by
  refine (loadsBytes_scanBytes _ _ _).bind fun idxByte => ?_
  have h_assert : LoadsBytes (Kern.assert (idxByte < btmp.btmpBytesLen)) := by
    unfold Kern.assert
    split <;> trivial
  refine h_assert.bind fun _ => ?_
  split
  · trivial
  · refine (loadsBytes_scanBits _ _ _ _).bind fun idxBit => ?_
    dsimp only
    split
    · trivial
    · exact loadsBytes_scanRun _ _ _ _ _

section Scan

variable {btmp : Bitmap} {b : ℕ}

/-- **The first clear bit** is found wherever the bitmap is mapped to. -/
theorem bitmapScan_seen_run (h : btmp.FirstClear (seen m) b) (h_size : btmp.size < 2 ^ 31)
    (h_mapped : ∀ a, btmp.Inside a → ∃ x, translate m a = some x) :
    (bitmapScan btmp 1#32).run kernelSem m = .ok (phys b, m) := by
  obtain ⟨l, h_inside, h_run⟩ := bitmapScan_read (s := ⟨seen m, []⟩) h h_size 1#32
  rw [if_pos rfl] at h_run
  exact (loadsBytes_bitmapScan btmp 1#32).run_of_read h_run fun a ha => h_mapped a (h_inside a ha)

/-- Setting a bit, wherever its byte is mapped to. -/
theorem bitmapSet_seen_run {x : BitVec 32} (h_map : translate m (btmp.byteAddr b) = some x) :
    (bitmapSet btmp (phys b) 1#8).run kernelSem m
      = .ok ((), m.store8 x (m x ||| bitmapMask (phys b % 8#32))) := by
  have h_byte : btmp.bits + phys b / 8#32 = btmp.byteAddr b := rfl
  unfold bitmapSet
  rw [run_assert (by decide)]
  dsimp only
  rw [h_byte, run_load8 h_map, if_pos (by decide), run_store8 h_map]

end Scan
end ToiletOS
