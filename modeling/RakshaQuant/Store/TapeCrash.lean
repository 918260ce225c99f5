import RakshaQuant.Store.TapeSteps

/-! The tape survives crashes. A flush that is cut adds the whole batch of a stream or
nothing, and a compaction that is cut changes no reading; so at every moment a reading
is the kept batches in their order. -/

namespace RakshaQuant

namespace Tape

variable {files : Files} {key other : Key} {n k : ℕ}

theorem applyAll_append (ops ops' : List FileOp) (files : Files) :
    applyAll (ops ++ ops') files = applyAll ops' (applyAll ops files) :=
  List.foldl_append

/-! ## Writing a file atomically -/

/-- The view after some steps of an atomic write of a file of the stream `other`: that
of the finished file, or that before. -/
theorem view_writeAtomic (file : File) {path : Path} (hpath : Reads other path)
    (files : Files) (key : Key) :
    view (applyAll (writeAtomic file path) files) key = view (files.set path file) key := by
  have htmp := not_reads_tmp other path.1 path.2
  have hne : path ≠ (path.1, path.2 ++ ".tmp") := fun heq => htmp (heq ▸ hpath)
  have happly : applyAll (writeAtomic file path) files =
      ((files.set (path.1, path.2 ++ ".tmp") file).pop (path.1, path.2 ++ ".tmp")).set
        path file := by
    simp [applyAll, writeAtomic, FileOp.apply]
  rw [happly]
  apply view_congr
  intro path' hpath'
  have hne' : path' ≠ (path.1, path.2 ++ ".tmp") :=
    fun heq => not_reads_tmp key path.1 path.2 (heq ▸ hpath')
  rw [Dict.get?_set, Dict.get?_set, Dict.get?_pop, if_neg hne', Dict.get?_set, if_neg hne']

/-- A cut before the replace leaves at most a temporary file. -/
theorem view_writeAtomic_take (file : File) (path : Path) (key : Key) (hk : k < 2) :
    view (applyAll ((writeAtomic file path).take k) files) key = view files key := by
  match k, hk with
  | 0, _ => rfl
  | 1, _ => exact view_set_other file (not_reads_tmp key path.1 path.2)

/-- A cut after the replace leaves the whole file. -/
theorem take_writeAtomic (file : File) (path : Path) (rest : List FileOp) (j : ℕ) :
    (writeAtomic file path ++ rest).take (2 + j) = writeAtomic file path ++ rest.take j :=
  @List.take_length_add_append _ (writeAtomic file path) rest j

/-! ## Counting parts -/

theorem isPart_part (key other : Key) (source : Path) (n : ℕ) :
    FileOp.isPart key (.replace source (other.1, partName other.2 n)) = decide (key = other) := by
  obtain ⟨day, s⟩ := key
  obtain ⟨day', s'⟩ := other
  have hstream : (s.value ++ ".part-").toList.isPrefixOf (partName s' n).toList =
      decide (s = s') := by
    rw [toList_partName]
    cases s <;> cases s' <;> simp [Stream.value, List.isPrefixOf]
  rw [FileOp.isPart, hstream]
  simp [eq_comm]

theorem isPart_compacted (key other : Key) (source : Path) :
    FileOp.isPart key (.replace source (other.1, compactedName other.2)) = false := by
  have hname : (key.2.value ++ ".part-").toList.isPrefixOf (compactedName other.2).toList =
      false := by
    cases key.2 <;> cases other.2 <;> decide +kernel
  rw [FileOp.isPart, hname]
  simp

theorem countP_writeAtomic_part (key other : Key) (file : File) (n : ℕ) :
    (writeAtomic file (other.1, partName other.2 n)).countP (FileOp.isPart key) =
      if key = other then 1 else 0 := by
  simp only [writeAtomic, List.countP_cons, List.countP_nil, isPart_part]
  simp [FileOp.isPart]

/-! ## Flushing -/

/-- What a flush that is cut after `k` steps does to the stream `key`: nothing, and then
it was cut or had no rows, or it adds its rows as the next part. -/
theorem flushOps_take (key : Key) (entries : List (Key × List Row))
    (hnodup : (entries.map Prod.fst).Nodup) (files : Files) (k : ℕ) :
    (view (applyAll ((flushOps entries files).take k) files) key = view files key ∧
      ((flushOps entries files).take k).countP (FileOp.isPart key) = 0 ∧
      ((flushOps entries files).length ≤ k → ∀ rows, (key, rows) ∈ entries → rows = [])) ∨
    ∃ rows, (key, rows) ∈ entries ∧ rows ≠ [] ∧
      view (applyAll ((flushOps entries files).take k) files) key =
        (view files key).add (nextPart files key) rows ∧
      ((flushOps entries files).take k).countP (FileOp.isPart key) = 1 := by
  -- by induction on the buffers: each writes its part in two steps, or none when it is empty
  induction entries generalizing files k with
  | nil => exact .inl ⟨by simp [flushOps, applyAll], by simp [flushOps], by simp⟩
  | cons entry rest ih =>
    obtain ⟨other, batch⟩ := entry
    rw [List.map_cons, List.nodup_cons] at hnodup
    by_cases hempty : batch = []
    · -- an empty buffer makes no step
      have hops : flushOps ((other, batch) :: rest) files = flushOps rest files := by
        rw [flushOps, if_pos hempty]
      rw [hops]
      refine (ih hnodup.2 files k).imp ?_ ?_
      · intro h
        refine ⟨h.1, h.2.1, fun hlength rows hrows => ?_⟩
        cases List.mem_cons.mp hrows with
        | inl heq =>
          cases heq
          exact hempty
        | inr hrest => exact h.2.2 hlength rows hrest
      · rintro ⟨rows, hrows, h⟩
        exact ⟨rows, List.mem_cons_of_mem _ hrows, h⟩
    · have hops : flushOps ((other, batch) :: rest) files =
          writeAtomic ⟨batch, none⟩ (other.1, partName other.2 (nextPart files other)) ++
            flushOps rest (applyAll (writeAtomic ⟨batch, none⟩
              (other.1, partName other.2 (nextPart files other))) files) := by
        rw [flushOps, if_neg hempty]
      rw [hops]
      generalize hnumber : nextPart files other = number
      have hreads := reads_part other number
      by_cases hk : k < 2
      · -- the cut comes before the first part is in its place
        left
        have htake : ∀ rest' : List FileOp, (writeAtomic ⟨batch, none⟩
            (other.1, partName other.2 number) ++ rest').take k =
              (writeAtomic ⟨batch, none⟩ (other.1, partName other.2 number)).take k :=
          fun rest' => List.take_append_of_le_length (by simp [writeAtomic]; omega)
        rw [htake]
        refine ⟨view_writeAtomic_take _ _ _ hk, ?_, ?_⟩
        · match k, hk with
          | 0, _ => rfl
          | 1, _ => rfl
        · intro hlength
          simp [writeAtomic] at hlength
          omega
      · obtain ⟨j, rfl⟩ : ∃ j, k = 2 + j := ⟨k - 2, by omega⟩
        rw [take_writeAtomic, applyAll_append, List.countP_append, countP_writeAtomic_part]
        generalize hfiles : applyAll (writeAtomic ⟨batch, none⟩
          (other.1, partName other.2 number)) files = files₁
        have hview := view_writeAtomic ⟨batch, none⟩ hreads files key
        rw [hfiles] at hview
        by_cases hkey : key = other
        · -- the batch of this stream; the rest has none
          subst hkey
          right
          rw [view_set_part, ← hnumber] at hview
          refine ⟨batch, List.mem_cons_self, hempty, ?_⟩
          cases ih hnodup.2 files₁ j with
          | inl h =>
            rw [h.1, h.2.1, if_pos rfl]
            exact ⟨hview, rfl⟩
          | inr h =>
            obtain ⟨rows, hrows, -⟩ := h
            exact absurd (List.mem_map_of_mem (f := Prod.fst) hrows) hnodup.1
        -- the part of another stream: what this one shows, and its next number, stay as they were
        · rw [view_set_other _ (fun h => hkey (h.unique hreads))] at hview
          rw [if_neg hkey, Nat.zero_add, ← hview, ← nextPart_congr hview]
          refine (ih hnodup.2 files₁ j).imp ?_ ?_
          · intro h
            refine ⟨h.1, h.2.1, fun hlength rows hrows => ?_⟩
            have hlength' : (flushOps rest files₁).length ≤ j := by
              rw [List.length_append] at hlength
              simpa [writeAtomic] using hlength
            cases List.mem_cons.mp hrows with
            | inl heq => exact absurd (congrArg Prod.fst heq) hkey
            | inr hrest => exact h.2.2 hlength' rows hrest
          · rintro ⟨rows, hrows, h⟩
            exact ⟨rows, List.mem_cons_of_mem _ hrows, h⟩

/-! ## Compacting -/

/-- Deleting absorbed parts of `other` changes no reading of `key`. -/
theorem unlink_parts (parts : List (ℕ × String)) (files : Files)
    (hparts : ∀ part ∈ parts, part.2 = partName other.2 part.1 ∧
      part.1 ≤ (view files other).stamp) (h : (view files key).Within n) :
    (view (applyAll (parts.map fun part => .unlink (other.1, part.2)) files) key).read limit =
        (view files key).read limit ∧
      (view (applyAll (parts.map fun part => .unlink (other.1, part.2)) files) key).Within n := by
  induction parts generalizing files with
  | nil => exact ⟨rfl, h⟩
  | cons part rest ih =>
    obtain ⟨hname, hstamp⟩ := hparts part List.mem_cons_self
    have hother : view (files.pop (other.1, part.2)) other = (view files other).remove part.1 := by
      rw [hname, view_pop_part]
    have hrest := ih (files.pop (other.1, part.2))
      (fun part' hpart' => by
        rw [hother]
        exact hparts part' (List.mem_cons_of_mem _ hpart'))
    by_cases hkey : key = other
    · subst hkey
      rw [hother, Segments.read_remove hstamp] at hrest
      exact hrest (h.remove part.1)
    · have hsame : view (files.pop (other.1, part.2)) key = view files key := by
        rw [hname]
        exact view_pop_other (fun h => hkey (h.unique (reads_part other part.1)))
      rw [hsame] at hrest
      exact hrest h

/-- A compaction of `other` that is cut after `k` steps changes no reading of `key`. -/
theorem compactStream_take (other : Key) (h : (view files key).Within n) (hn : n < limit) (k : ℕ) :
    (view (applyAll ((compactStream other files).take k) files) key).read limit =
        (view files key).read limit ∧
      (view (applyAll ((compactStream other files).take k) files) key).Within n := by
  by_cases hparts : liveParts files other = []
  · rw [compactStream, if_pos hparts, List.take_nil]
    exact ⟨rfl, h⟩
  rw [compactStream, if_neg hparts]
  generalize hmerged : File.mk (readStream files other)
    (some (lastNumber (liveParts files other))) = merged
  by_cases hk : k < 2
  · rw [List.take_append_of_le_length (by simp [writeAtomic]; omega),
      view_writeAtomic_take _ _ _ hk]
    exact ⟨rfl, h⟩
  -- the merged file is in its place; the parts it stands for go one by one
  obtain ⟨j, rfl⟩ : ∃ j, k = 2 + j := ⟨k - 2, by omega⟩
  have hreads := reads_compacted other
  rw [take_writeAtomic, applyAll_append, ← List.map_take]
  generalize hfiles : applyAll (writeAtomic merged (other.1, compactedName other.2)) files = files₁
  have hview : ∀ key, view files₁ key =
      view (files.set (other.1, compactedName other.2) merged) key := by
    intro key
    rw [← hfiles, view_writeAtomic merged hreads]
  have hother : view files₁ other = { view files other with
      base := readStream files other, stamp := lastNumber (liveParts files other) } := by
    rw [hview, ← hmerged, view_set_compacted]
  -- a part that is still there is counted no more
  have habsorbed : ∀ part ∈ (liveParts files other).take j,
      part.2 = partName other.2 part.1 ∧ part.1 ≤ (view files₁ other).stamp := by
    intro part hpart
    have hlive := List.mem_of_mem_take hpart
    have hsorted : (liveParts files other).Pairwise byNumber :=
      (pairwise_allParts files other).filter _
    rw [hother]
    exact ⟨(mem_allParts.mp (List.mem_of_mem_filter hlive)).2.1, le_lastNumber hsorted hlive⟩
  by_cases hkey : key = other
  · subst hkey
    obtain ⟨hwithin, hle⟩ := within_lastNumber h hn hparts
    have hmerge : view files₁ key =
        (view files key).merge limit (lastNumber (liveParts files key)) := by
      rw [hother, readStream_eq]
      rfl
    have hrest := unlink_parts _ files₁ habsorbed (by rw [hmerge]; exact hwithin.merge.mono hle)
    rw [hmerge, Segments.read_merge hwithin] at hrest
    exact hrest
  · have hsame : view files₁ key = view files key := by
      rw [hview, view_set_other _ (fun h => hkey (h.unique hreads))]
    rw [← hsame]
    exact unlink_parts _ files₁ habsorbed (hsame ▸ h)

/-- A compaction, whole or cut, changes no reading. -/
theorem compactOps_take (h : (view files key).Within n) (hn : n < limit) (day : Day) (k : ℕ) :
    (view (applyAll ((compactOps day files).take k) files) key).read limit =
        (view files key).read limit ∧
      (view (applyAll ((compactOps day files).take k) files) key).Within n := by
  rw [compactOps, List.take_append, applyAll_append]
  by_cases hk : k < (compactStream (day, .quotes) files).length
  · rw [Nat.sub_eq_zero_of_le hk.le, List.take_zero]
    exact compactStream_take (day, .quotes) h hn k
  · have hfirst := compactStream_take (day, .quotes) h hn
      (compactStream (day, .quotes) files).length
    rw [List.take_length] at hfirst
    rw [List.take_of_length_le (Nat.le_of_not_lt hk)]
    have hsecond := compactStream_take (day, .bars) hfirst.2 hn
      (k - (compactStream (day, .quotes) files).length)
    exact ⟨hsecond.1.trans hfirst.1, hsecond.2⟩

theorem isPart_compactStream {op : FileOp} (h : op ∈ compactStream other files) :
    FileOp.isPart key op = false := by
  rw [compactStream] at h
  split at h
  · cases h
  · rw [List.mem_append, List.mem_map] at h
    cases h with
    | inl hwrite =>
      simp only [writeAtomic, List.mem_cons, List.not_mem_nil, or_false] at hwrite
      cases hwrite with
      | inl heq => rw [heq]; rfl
      | inr heq => rw [heq, isPart_compacted]
    | inr hunlink =>
      obtain ⟨part, -, rfl⟩ := hunlink
      rfl

/-- Compaction writes no parts. -/
theorem countP_compactOps (key : Key) (day : Day) (files : Files) (k : ℕ) :
    ((compactOps day files).take k).countP (FileOp.isPart key) = 0 := by
  rw [List.countP_eq_zero]
  intro op hop
  have hmem := List.mem_of_mem_take hop
  rw [compactOps, List.mem_append] at hmem
  rw [Bool.not_eq_true]
  exact hmem.elim isPart_compactStream isPart_compactStream

/-! ## Runs -/

/-- The rows an action adds for `key`. -/
def rowsAdded (key : Key) (a : Action) : List Row :=
  match key.2 with
  | .quotes => (quotesAdded key.1 a).map fun q => .quote (quoteRow q)
  | .bars => (barsAdded key.1 a).map fun b => .bar (barRow b)

theorem buffered_extend (buffers : Buffers) (key other : Key) (rows : List Row) :
    buffered (extend buffers other rows) key =
      buffered buffers key ++ if key = other then rows else [] := by
  by_cases h : key = other
  · subst h
    simp [buffered, extend]
  · simp [buffered, extend, h]

theorem buffered_addQuotes (quotes : List RecordedQuote) (buffers : Buffers) (key : Key) :
    buffered (Tape.addQuotes quotes buffers) key =
      buffered buffers key ++ rowsAdded key (.addQuotes quotes) := by
  obtain ⟨day, s⟩ := key
  induction quotes generalizing buffers with
  | nil => cases s <;> simp [Tape.addQuotes, rowsAdded, quotesAdded, barsAdded]
  | cons q rest ih =>
    have hcons : Tape.addQuotes (q :: rest) buffers = Tape.addQuotes rest
        (extend buffers (q.receiptTs.istDate, .quotes) [.quote (quoteRow q)]) := rfl
    rw [hcons, ih, buffered_extend, List.append_assoc]
    congr 1
    cases s with
    | quotes =>
      by_cases hday : q.receiptTs.istDate = day
      · simp [rowsAdded, quotesAdded, hday]
      · simp [rowsAdded, quotesAdded, hday, Ne.symm hday]
    | bars => simp [rowsAdded, barsAdded]

theorem buffered_addBars (bars : List Bar) (recordedOn : Day) (buffers : Buffers) (key : Key) :
    buffered (Tape.addBars bars recordedOn buffers) key =
      buffered buffers key ++ rowsAdded key (.addBars bars recordedOn) := by
  obtain ⟨day, s⟩ := key
  rw [Tape.addBars, buffered_extend]
  congr 1
  cases s with
  | quotes => simp [rowsAdded, quotesAdded]
  | bars =>
    by_cases hday : day = recordedOn
    · simp [rowsAdded, barsAdded, hday]
    · simp [rowsAdded, barsAdded, hday, Ne.symm hday]

/-- The stream `key` agrees with its account, and its numbers go up to `n`. -/
structure Agrees (key : Key) (tape : Tape) (account : Account Row) (n : ℕ) : Prop where
  within : (view tape.files key).Within n
  pending : buffered tape.buffers key = account.pending
  kept : ∃ kept, Kept account.batches kept ∧ (view tape.files key).read limit = kept.flatten

theorem Agrees.init (key : Key) : Agrees key Tape.init ⟨[], []⟩ 0 := by
  refine ⟨⟨Nat.le_refl 0, fun m hm => ?_⟩, rfl, [], .nil, ?_⟩
  · exact absurd rfl hm
  · rw [← readStream_eq]
    rfl

/-- The buffers in their order are the ones there are. -/
theorem mem_sorted {buffers : Buffers} {rows : List Row} :
    (key, rows) ∈ buffers.entries.insertionSort keyLe ↔ buffers.get? key = some rows := by
  rw [List.mem_insertionSort, Dict.mem_entries_iff]

theorem nodup_sorted (buffers : Buffers) :
    ((buffers.entries.insertionSort keyLe).map Prod.fst).Nodup :=
  ((List.perm_insertionSort keyLe buffers.entries).map Prod.fst).nodup_iff.mpr buffers.nodup_keys

/-- A cut takes some of the steps, no cut takes all. -/
theorem exists_take (cut : Option ℕ) (ops : List FileOp) :
    ∃ k, cutAt cut ops = ops.take k ∧ (cut = none → ops.length ≤ k) := by
  cases cut with
  | none => exact ⟨ops.length, (List.take_length).symm, fun _ => Nat.le_refl _⟩
  | some k => exact ⟨k, rfl, fun h => by cases h⟩

variable {tape : Tape} {acc : Account Row}

/-- A flush, whole or cut. -/
theorem Agrees.flush (h : Agrees key tape acc n) (cut : Option ℕ)
    (hn : n + (tape.ops (.flush cut)).countP (FileOp.isPart key) < limit) :
    Agrees key (tape.step (.flush cut)) (acc.step (rowsAdded key) (.flush cut))
      (n + (tape.ops (.flush cut)).countP (FileOp.isPart key)) := by
  obtain ⟨kept, hkept, hread⟩ := h.kept
  obtain ⟨k, htake, hall⟩ := exists_take cut
    (flushOps (tape.buffers.entries.insertionSort keyLe) tape.files)
  have hops : tape.ops (.flush cut) =
      (flushOps (tape.buffers.entries.insertionSort keyLe) tape.files).take k := htake
  have hfiles : (tape.step (.flush cut)).files = applyAll
      ((flushOps (tape.buffers.entries.insertionSort keyLe) tape.files).take k) tape.files := by
    rw [← hops]
    rfl
  have hn' : n < limit := by omega
  rw [hops] at hn ⊢
  -- the cut comes before the part of this stream is in its place, or after it
  cases flushOps_take key _ (nodup_sorted tape.buffers) tape.files k with
  | inl hnothing =>
    obtain ⟨hview, hcount, hnone⟩ := hnothing
    rw [hcount, Nat.add_zero]
    refine ⟨by rw [hfiles, hview]; exact h.within, rfl, ?_⟩
    rw [hfiles, hview]
    by_cases hpending : acc.pending = []
    · exact ⟨kept, by simpa [Account.step, hpending] using hkept, hread⟩
    · -- a whole flush would have written the batch
      have hcut : cut.isNone = false := by
        cases cut with
        | some k => rfl
        | none =>
          cases hbuffer : tape.buffers.get? key with
          | none =>
            rw [← h.pending, buffered, hbuffer] at hpending
            exact absurd rfl hpending
          | some rows =>
            have hrows := hnone (hall rfl) rows (mem_sorted.mpr hbuffer)
            rw [← h.pending, buffered, hbuffer, hrows] at hpending
            exact absurd rfl hpending
      refine ⟨kept, ?_, hread⟩
      have hlost := hkept.append (.lost (b := acc.pending) .nil)
      simpa [Account.step, hpending, hcut] using hlost
  | inr hwhole =>
    obtain ⟨rows, hrows, hne, hview, hcount⟩ := hwhole
    have hpending : acc.pending = rows := by
      rw [← h.pending, buffered, mem_sorted.mp hrows]
      rfl
    have hnext := nextPart_le h.within
    have hwithin := within_before_nextPart h.within hn'
    have hpos : nextPart tape.files key - 1 < nextPart tape.files key := by
      rw [nextPart]
      omega
    rw [hcount] at hn ⊢
    refine ⟨?_, rfl, kept ++ [rows], ?_, ?_⟩
    · rw [hfiles, hview]
      exact (hwithin.add (Nat.sub_le _ 1)).mono hnext
    -- the part is whole on disk, whether or not the flush came to its end
    · have hkept' : Kept [(cut.isNone, rows)] [rows] := by
        cases cut with
        | none => exact .finished .nil
        | some k => exact .whole .nil
      simpa [Account.step, hpending, hne] using hkept.append hkept'
    · rw [hfiles, hview, Segments.read_add hwithin hpos (by omega), hread]
      simp

/-- A call that changes no reading. -/
theorem Agrees.unread (h : Agrees key tape acc n) {a : Action} {acc' : Account Row}
    (hread : (view (tape.step a).files key).read limit = (view tape.files key).read limit)
    (hwithin : (view (tape.step a).files key).Within n)
    (hpending : buffered (tape.step a).buffers key = acc'.pending)
    (hbatches : acc'.batches = acc.batches) : Agrees key (tape.step a) acc' n := by
  obtain ⟨kept, hkept, hkept'⟩ := h.kept
  exact ⟨hwithin, hpending, kept, hbatches ▸ hkept, hread.trans hkept'⟩

/-- Every action keeps a stream in agreement with its account. -/
theorem Agrees.step (h : Agrees key tape acc n) (a : Action)
    (hn : n + (tape.ops a).countP (FileOp.isPart key) < limit) :
    Agrees key (tape.step a) (acc.step (rowsAdded key) a)
      (n + (tape.ops a).countP (FileOp.isPart key)) := by
  cases a with
  | addQuotes quotes =>
    refine h.unread rfl h.within ?_ rfl
    show buffered (Tape.addQuotes quotes tape.buffers) key = _
    rw [buffered_addQuotes, h.pending]
    rfl
  | addBars bars recordedOn =>
    refine h.unread rfl h.within ?_ rfl
    show buffered (Tape.addBars bars recordedOn tape.buffers) key = _
    rw [buffered_addBars, h.pending]
    rfl
  | flush cut => exact h.flush cut hn
  | compact day cut =>
    obtain ⟨k, htake, -⟩ := exists_take cut (compactOps day tape.files)
    have hops : tape.ops (.compact day cut) = (compactOps day tape.files).take k := htake
    have hfiles : (tape.step (.compact day cut)).files =
        applyAll ((compactOps day tape.files).take k) tape.files := by
      rw [← hops]
      rfl
    have hsame := compactOps_take h.within (by omega) day k
    rw [← hfiles] at hsame
    rw [hops, countP_compactOps, Nat.add_zero]
    cases cut with
    | none =>
      refine h.unread hsame.1 hsame.2 ?_ rfl
      have hadded : rowsAdded key (.compact day none) = [] := by
        rw [rowsAdded]
        cases key.2 <;> rfl
      show buffered tape.buffers key = acc.pending ++ _
      rw [hadded, List.append_nil, h.pending]
    | some k => exact h.unread hsame.1 hsame.2 rfl rfl
  | crash => exact h.unread rfl h.within rfl rfl

/-- A run keeps a stream in agreement with its account. -/
theorem Agrees.run (actions : List Action) (h : Agrees key tape acc n)
    (hn : n + partsWritten key actions tape < limit) :
    ∃ m, Agrees key (tape.run actions) (actions.foldl (Account.step (rowsAdded key)) acc) m := by
  induction actions generalizing tape acc n with
  | nil => exact ⟨n, h⟩
  | cons a rest ih =>
    rw [partsWritten] at hn
    exact ih (h.step a (by omega)) (by omega)

/-! ## What is read -/

section Records

variable {β : Type*} (added : Action → List β) (write : β → Row)

/-- An account of records, of their rows. -/
def Account.written (account : Account β) : Account Row :=
  ⟨account.pending.map write, account.batches.map fun b => (b.1, b.2.map write)⟩

theorem Account.written_step (account : Account β) (a : Action) :
    (account.step added a).written write =
      (account.written write).step (fun a => (added a).map write) a := by
  cases a with
  | flush cut =>
    by_cases h : account.pending = []
    · simp [Account.step, Account.written, h]
    · simp [Account.step, Account.written, h]
  | compact day cut => cases cut <;> simp [Account.step, Account.written]
  | addQuotes quotes => simp [Account.step, Account.written]
  | addBars bars recordedOn => simp [Account.step, Account.written]
  | crash => rfl

theorem Account.written_run (actions : List Action) (start : Account β) :
    (actions.foldl (Account.step added) start).written write =
      actions.foldl (Account.step fun a => (added a).map write) (start.written write) := by
  induction actions generalizing start with
  | nil => rfl
  | cons a rest ih => rw [List.foldl_cons, ih, Account.written_step, List.foldl_cons]

/-- A run's reading of one stream: the kept batches, as they were added. -/
theorem readStream_run (key : Key) (hadded : rowsAdded key = fun a => (added a).map write)
    (actions : List Action) (hparts : partsWritten key actions Tape.init < limit) :
    ∃ kept, Kept (account added actions).batches kept ∧
      readStream (Tape.init.run actions).files key = kept.flatten.map write := by
  obtain ⟨n, hagrees⟩ := (Agrees.init key).run actions (by omega)
  obtain ⟨rows, hkept, hread⟩ := hagrees.kept
  have haccount : actions.foldl (Account.step (rowsAdded key)) ⟨[], []⟩ =
      (account added actions).written write := by
    rw [hadded, account, Account.written_run]
    rfl
  rw [haccount] at hkept
  obtain ⟨kept, hkept', rfl⟩ := hkept.of_map
  refine ⟨kept, hkept', ?_⟩
  rw [readStream_eq, hread, List.map_flatten]

end Records

/-- What was written reads back. -/
theorem mapM_written {β γ : Type} {write : β → γ} {read : γ → Option β}
    (h : ∀ b, read (write b) = some b) (l : List β) : (l.map write).mapM read = some l := by
  induction l with
  | nil => rfl
  | cons b rest ih =>
    rw [List.map_cons, List.mapM_cons, h, ih]
    rfl

theorem readQuote_quote (q : RecordedQuote) : Row.readQuote (.quote (quoteRow q)) = some q :=
  validateQuote_quoteRow q

theorem readBar_bar (b : Bar) : Row.readBar (.bar (barRow b)) = some b :=
  validateBar_barRow b

/-- The tape survives crashes: after any calls and crashes, a stream of a day that had
fewer than a million parts reads as its kept batches in order. -/
theorem kept_batches_read (actions : List Action) (day : Day) :
    (partsWritten (day, .quotes) actions Tape.init < 1000000 → ∃ kept,
      Kept (account (quotesAdded day) actions).batches kept ∧
        readQuotes (Tape.init.run actions).files day = some kept.flatten) ∧
    (partsWritten (day, .bars) actions Tape.init < 1000000 → ∃ kept,
      Kept (account (barsAdded day) actions).batches kept ∧
        readBars (Tape.init.run actions).files day = some kept.flatten) := by
  constructor
  · intro hparts
    obtain ⟨kept, hkept, hread⟩ := readStream_run (quotesAdded day)
      (fun q => .quote (quoteRow q)) (day, .quotes) rfl actions hparts
    exact ⟨kept, hkept, by rw [readQuotes, hread, mapM_written readQuote_quote]⟩
  · intro hparts
    obtain ⟨kept, hkept, hread⟩ := readStream_run (barsAdded day)
      (fun b => .bar (barRow b)) (day, .bars) rfl actions hparts
    exact ⟨kept, hkept, by rw [readBars, hread, mapM_written readBar_bar]⟩

namespace TwoBatches

theorem key_ne : "NSE:EQ:INFY" ≠ "" := by decide

theorem ltp_pos : (0 : ℚ) < 1 := one_pos

theorem no_price : ∀ p ∈ (none : Option ℚ), 0 < p := by simp

/-- A quote of INFY on 1970-01-01. -/
def quote (volume : ℕ) : RecordedQuote where
  instrumentKey := "NSE:EQ:INFY"
  ltp := 1
  prevClose := none
  volumeCum := volume
  exchangeTs := 0
  receiptTs := 0
  bid := none
  ask := none
  source := .replay
  isDelayed := false
  qualityFlags := []
  ltp_pos
  prevClose_pos := no_price
  volumeCum_nonneg := Int.natCast_nonneg volume
  instrumentKey_ne := key_ne
  bid_pos := no_price
  ask_pos := no_price

/-- Two flushes, the second dying before its replace, and a compaction that dies before
its unlink. -/
def actions : List Action :=
  [.addQuotes [quote 1], .flush none, .addQuotes [quote 2], .flush (some 1),
    .compact 0 (some 2), .addQuotes [quote 3], .flush none]

end TwoBatches

example : (readQuotes (Tape.init.run TwoBatches.actions).files 0).map
    (List.map fun q => q.volumeCum) = some [1, 3] := by decide +kernel

/-- Only the batch of the interrupted flush is missing. -/
theorem kept_batches_read_cut : ∃ kept,
    Kept (account (quotesAdded 0) TwoBatches.actions).batches kept ∧
      readQuotes (Tape.init.run TwoBatches.actions).files 0 = some kept.flatten :=
  (kept_batches_read TwoBatches.actions 0).1 (by decide +kernel)

end Tape

end RakshaQuant
