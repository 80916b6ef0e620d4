import NioApps.Fnsvc.ListPage

/-!
# Fnsvc — pages encoded by a device

The other end of `pageProg`: how a device writes the entries of a directory into a page, in
the full layout (name, size, mtime) or in the compact one (name only). `pageExit_encode` and
`pageArgs_encode` are the round trip: the parser accepts an encoded page and hands `cb` the
entries it was made from, whatever stands in the reserved bytes, in the other flag bits and
after the region.
-/

namespace NioApps.Fnsvc

/-- A directory entry. Its lowest flag bit is `is_dir`. -/
structure DirEntry where
  flags : UInt8
  name : List UInt8
  size : Nat
  mtime : Nat
  name_nulFree : 0 ∉ name
  name_le : name.length ≤ fnsvcListNameMax
  size_lt : size < 2 ^ 64
  mtime_lt : mtime < 2 ^ 64

def DirEntry.isDir (e : DirEntry) : UInt8 := e.flags &&& 0x01

/-- What `cb` is to be handed for an entry: a compact page carries no size and no mtime, and
of the full layout's 64-bit fields the low halves are kept. -/
def DirEntry.cbArgs (compact : Bool) (e : DirEntry) : CbArgs where
  isDir := e.isDir
  name := e.name
  size := if compact then 0 else e.size % 2 ^ 32
  mtime := if compact then 0 else e.mtime % 2 ^ 32

def DirEntry.trailer (compact : Bool) (e : DirEntry) : List UInt8 :=
  if compact then [] else leBytes 8 e.size ++ leBytes 8 e.mtime

def DirEntry.encode (compact : Bool) (e : DirEntry) : List UInt8 :=
  e.flags :: UInt8.ofNat e.name.length :: (e.name ++ e.trailer compact)

/-- What a device puts into a page: the page flags, the bytes 2 to 5, the entries, and what it
sends after them. -/
structure ListPage where
  flags : UInt8
  reserved : List UInt8
  entries : List DirEntry
  trailing : List UInt8
  reserved_length : reserved.length = 4

def ListPage.compact (p : ListPage) : Bool := isCompact p.flags

/-- The entries of a page, one after the other. -/
def ListPage.region (p : ListPage) : List UInt8 := p.entries.flatMap (DirEntry.encode p.compact)

def ListPage.encode (p : ListPage) : List UInt8 :=
  nioFileVersion :: p.flags :: (p.reserved ++ (leBytes 2 p.entries.length ++
    (leBytes 2 p.region.length ++ (p.region ++ p.trailing))))

def ListPage.cbArgs (p : ListPage) : List CbArgs := p.entries.map (DirEntry.cbArgs p.compact)

/-! ## One entry -/

theorem listMem_append_cons (pre post : List UInt8) (b : UInt8) :
    listMem (pre ++ b :: post) pre.length = b := by
  simp [listMem]

theorem listMem_append_add (pre bs : List UInt8) (k : Nat) :
    listMem (pre ++ bs) (pre.length + k) = listMem bs k := by
  unfold listMem
  rw [List.getD_append_right _ _ _ _ (by omega), Nat.add_sub_cancel_left]

section Entry

variable (pre post : List UInt8) (compact : Bool) (e : DirEntry)

/-- The length byte that an encoded entry starts with. -/
theorem nameLenAt_encode :
    nameLenAt (listMem (pre ++ (e.encode compact ++ post))) pre.length = e.name.length := by
  have hle : e.name.length ≤ 220 := e.name_le
  unfold nameLenAt
  rw [listMem_append_add]
  show (UInt8.ofNat e.name.length).toNat = e.name.length
  rw [UInt8.toNat_ofNat', Nat.mod_eq_of_lt (by omega)]

theorem DirEntry.length_trailer : (e.trailer compact).length = if compact then 0 else 16 := by
  cases compact <;> simp [DirEntry.trailer]

/-- An entry has two bytes beside its name, and sixteen more in the full layout. -/
theorem DirEntry.length_encode :
    (e.encode compact).length = 2 + e.name.length + if compact then 0 else 16 := by
  rw [DirEntry.encode, List.length_cons, List.length_cons, List.length_append, DirEntry.length_trailer]
  omega

/-- The code finds the end of an entry where its encoding ends. -/
theorem entryEnd_encode :
    entryEnd (listMem (pre ++ (e.encode compact ++ post))) compact pre.length =
      (pre ++ e.encode compact).length := by
  rw [entryEnd, nameLenAt_encode, List.length_append, DirEntry.length_encode]
  omega

/-- **One entry.** The fields the parser reads at an encoded entry are those of the entry. -/
theorem entryArgs_encode :
    entryArgs (listMem (pre ++ (e.encode compact ++ post))) compact pre.length =
      e.cbArgs compact := by
  have hlen := nameLenAt_encode pre post compact e
  -- the name starts two bytes in
  have hname : (List.range' (pre.length + 2) e.name.length).map
      (listMem (pre ++ (e.encode compact ++ post))) = e.name := by
    have hmid := map_listMem_append (pre ++ [e.flags, UInt8.ofNat e.name.length]) e.name
      (e.trailer compact ++ post) (Nat.le_refl e.name.length)
    rw [List.take_length, List.length_append] at hmid
    simpa [DirEntry.encode] using hmid
  have hflags : listMem (pre ++ (e.encode compact ++ post)) pre.length = e.flags :=
    listMem_append_cons pre _ e.flags
  have hcstr : cstr e.name = e.name := cstr_of_nulFree e.name_nulFree
  unfold entryArgs
  rw [hlen, hname, hflags, hcstr]
  cases compact with
  | true => rfl
  | false =>
    -- the two 64-bit fields stand after the name
    let head := pre ++ e.flags :: UInt8.ofNat e.name.length :: e.name
    have hhead : head.length = pre.length + 2 + e.name.length := by
      simp [head]
      omega
    have hbytes : pre ++ (e.encode false ++ post) =
        head ++ (leBytes 8 e.size ++ (leBytes 8 e.mtime ++ post)) := by
      simp [head, DirEntry.encode, DirEntry.trailer]
    have hsize := u32At_listMem head (leBytes 8 e.mtime ++ post) e.size
    have hmtime := u32At_listMem (head ++ leBytes 8 e.size) post e.mtime
    rw [List.append_assoc, List.length_append, leBytes_length] at hmtime
    rw [hbytes, ← hhead, hsize, hmtime]
    rfl

end Entry

/-! ## The entries of a page -/

/-- **The entries.** The walk over encoded entries passes all of them, one after the other. -/
theorem fitting_encode (compact : Bool) (entries : List DirEntry) (pre post : List UInt8)
    {limit : Nat} (hlimit : (pre ++ entries.flatMap (DirEntry.encode compact)).length ≤ limit) :
    (fitting (listMem (pre ++ (entries.flatMap (DirEntry.encode compact) ++ post))) compact
        limit entries.length pre.length).map
      (entryArgs (listMem (pre ++ (entries.flatMap (DirEntry.encode compact) ++ post)))
        compact) =
      entries.map (DirEntry.cbArgs compact) := by
  induction entries generalizing pre with
  | nil => simp [fitting]
  | cons e es ih =>
    rw [List.flatMap_cons] at hlimit ⊢
    -- the bytes as the head entry sees them, and as the entries after it do
    have hhead : pre ++ ((e.encode compact ++ es.flatMap (DirEntry.encode compact)) ++ post) =
        pre ++ (e.encode compact ++ (es.flatMap (DirEntry.encode compact) ++ post)) := by
      rw [List.append_assoc]
    have htail : pre ++ (e.encode compact ++ (es.flatMap (DirEntry.encode compact) ++ post)) =
        (pre ++ e.encode compact) ++ (es.flatMap (DirEntry.encode compact) ++ post) := by
      rw [List.append_assoc]
    have hrest := ih (pre ++ e.encode compact) (by rwa [List.append_assoc])
    rw [← htail] at hrest
    have hend := entryEnd_encode pre (es.flatMap (DirEntry.encode compact) ++ post) compact e
    have hargs := entryArgs_encode pre (es.flatMap (DirEntry.encode compact) ++ post) compact e
    have hfits : EntryFits
        (listMem (pre ++ (e.encode compact ++ (es.flatMap (DirEntry.encode compact) ++ post))))
        compact limit pre.length := by
      refine ⟨?_, ?_⟩
      · rw [hend]
        simp only [List.length_append] at hlimit ⊢
        omega
      · rw [nameLenAt_encode]
        exact e.name_le
    rw [hhead, List.length_cons, fitting, if_pos hfits, List.map_cons, List.map_cons, hargs, hend,
      hrest]

/-! ## The page -/

/-- A page is ten bytes of header, its entries, and what trails. -/
theorem ListPage.length_encode (p : ListPage) :
    p.encode.length = 10 + p.region.length + p.trailing.length := by
  simp [ListPage.encode, p.reserved_length]
  omega

/-- The header of a page, up to and including the bytes 2 to 5. -/
def ListPage.start (p : ListPage) : List UInt8 := nioFileVersion :: p.flags :: p.reserved

theorem ListPage.length_start (p : ListPage) : p.start.length = 6 := by
  simp [ListPage.start, p.reserved_length]

section Page

variable (p : ListPage)

/-- Every entry of a page takes at least two bytes, so a page that fits a response has few. -/
theorem ListPage.entries_length_le : 2 * p.entries.length ≤ p.region.length := by
  unfold ListPage.region
  induction p.entries with
  | nil => simp
  | cons e es ih =>
    rw [List.flatMap_cons, List.length_append, List.length_cons, DirEntry.length_encode]
    omega

/-- The header fields at the offsets where the code reads them. -/
theorem ListPage.header_encode (hlen : p.encode.length ≤ fnsvcIoBufSize) :
    listMem p.encode 1 = p.flags ∧ u16At (listMem p.encode) 6 = p.entries.length ∧
      u16At (listMem p.encode) 8 = p.region.length := by
  have hlen' : p.encode.length ≤ 512 := hlen
  have hbytes := p.length_encode
  have hcount := p.entries_length_le
  have hstart := p.length_start
  refine ⟨rfl, ?_, ?_⟩
  -- `count` stands at 6 and `entriesLen` at 8
  · have hfield := u16At_listMem p.start (leBytes 2 p.region.length ++ (p.region ++ p.trailing))
      (v := p.entries.length) (by omega)
    rw [hstart] at hfield
    exact hfield
  · have hfield := u16At_listMem (p.start ++ leBytes 2 p.entries.length) (p.region ++ p.trailing)
      (v := p.region.length) (by omega)
    rw [List.length_append, leBytes_length, hstart, List.append_assoc] at hfield
    exact hfield

/-- The header of an encoded page that fits the buffer is accepted. -/
theorem ListPage.headerExit_encode (hlen : p.encode.length ≤ fnsvcIoBufSize) :
    headerExit (listMem p.encode) p.encode.length = .ok () := by
  have hlen' : p.encode.length ≤ 512 := hlen
  have hbytes := p.length_encode
  have hsum : u16 (10 + p.region.length) = 10 + p.region.length := u16_of_lt (by omega)
  have hver : listMem p.encode 0 = nioFileVersion := rfl
  rw [headerExit, (p.header_encode hlen).2.2, hsum, hver, if_neg (by omega), if_neg (by simp),
    if_neg (by omega)]

/-- The entries that the code finds in an encoded page are those encoded, in order. -/
theorem ListPage.fitting_encode :
    (fitting (listMem p.encode) p.compact p.encode.length p.entries.length 10).map
      (entryArgs (listMem p.encode) p.compact) = p.cbArgs := by
  let head := p.start ++ (leBytes 2 p.entries.length ++ leBytes 2 p.region.length)
  have hhead : head.length = 10 := by simp [head, p.length_start]
  have hbytes : p.encode = head ++ (p.region ++ p.trailing) := by
    simp [head, ListPage.encode, ListPage.start]
  have hlimit : (head ++ p.region).length ≤ p.encode.length := by
    rw [List.length_append, hhead, p.length_encode]
    omega
  have hwalk := Fnsvc.fitting_encode p.compact p.entries head p.trailing hlimit
  rw [hhead] at hwalk
  rw [hbytes] at hwalk ⊢
  exact hwalk

/-- **Round trip, the exit.** An encoded page is accepted, with its flags and its count. -/
theorem pageExit_encode (hlen : p.encode.length ≤ fnsvcIoBufSize) :
    pageExit (listMem p.encode) p.encode.length = .ok (p.flags, p.entries.length) := by
  obtain ⟨hflags, hcount, -⟩ := p.header_encode hlen
  -- every entry is parsed, so the walk has as many entries as the header says
  have hall := congrArg List.length (p.fitting_encode)
  rw [List.length_map, ListPage.cbArgs, List.length_map] at hall
  rw [pageExit, p.headerExit_encode hlen, hflags, hcount]
  exact if_pos hall

/-- **Round trip, the callbacks.** They are those of the entries the page was made from. -/
theorem pageArgs_encode (hlen : p.encode.length ≤ fnsvcIoBufSize) :
    pageArgs (listMem p.encode) p.encode.length = p.cbArgs := by
  obtain ⟨hflags, hcount, -⟩ := p.header_encode hlen
  rw [pageArgs, p.headerExit_encode hlen, hflags, hcount]
  exact p.fitting_encode

end Page

end NioApps.Fnsvc
