/-
  QwNet.Parser.Download

  The life of the download file.

  Two commands of the server have to do with it: a `svc_stufftext` that begins with
  `download` opens a file, a `svc_download` writes to it and closes it.  What they do
  to files is a machine of its own, which the command loop refines.  At the last chunk
  the file is closed but not forgotten: the line that should clear the handle
  compares it.
-/
import QwNet.Lib.Resource
import QwNet.Parser.Effects
import QwNet.Parser.FullUpdate
import QwNet.Parser.Session

namespace QwNet

open RunM History Resource

/-! ## The machine -/

/-- A command of the server that has to do with the download. -/
inductive DownloadCommand where
  /-- `svc_stufftext` with `download`; does `fopen` succeed? -/
  | start (opens : Bool)
  /-- `svc_download`, as its size and percentage are read. -/
  | chunk (size percent : BitVec 32)
  deriving DecidableEq

/-- The file and the number of calls of `fopen`. -/
structure Download where
  file : File
  fopens : Nat

namespace DownloadCommand

/-- The last chunk. -/
def Finishes : DownloadCommand → Prop
  | .start _ => False
  | .chunk _ percent => percent = 100#32

/-- A chunk of size -1: the server gives the download up. -/
def GivesUp : DownloadCommand → Prop
  | .start _ => False
  | .chunk size _ => size = -1#32

/-- What a command does to the files. -/
def ops (d : Download) : DownloadCommand → List (Op Nat)
  | .start opens =>
    (if d.file.isSome then [.release d.file] else []) ++ (if opens then [.acquire d.fopens] else [])
  | .chunk size percent =>
    (if d.file.isSome then [if size = -1#32 then .release d.file else .use d.file] else [])
      ++ (if percent = 100#32 then [.release (if size = -1#32 then none else d.file)] else [])

/-- And what it leaves. -/
def next (d : Download) : DownloadCommand → Download
  | .start opens => ⟨if opens then some d.fopens else none, d.fopens + 1⟩
  | .chunk size _ => { d with file := if size = -1#32 then none else d.file }

end DownloadCommand

/-- The state after some commands. -/
def Download.after (cs : List DownloadCommand) (d : Download) : Download :=
  cs.foldl DownloadCommand.next d

/-- What some commands do to the files. -/
def Download.opsOf : List DownloadCommand → Download → List (Op Nat)
  | [], _ => []
  | c :: cs, d => c.ops d ++ Download.opsOf cs (c.next d)

/-- No file is open and none was. -/
def Download.initial : Download := ⟨none, 0⟩

theorem Download.after_concat (cs : List DownloadCommand) (c : DownloadCommand) (d : Download) :
    d.after (cs ++ [c]) = c.next (d.after cs) := List.foldl_concat ..

theorem Download.opsOf_concat (cs : List DownloadCommand) (c : DownloadCommand) (d : Download) :
    d.opsOf (cs ++ [c]) = d.opsOf cs ++ c.ops (d.after cs) := by
  induction cs generalizing d with
  | nil => exact List.append_nil _
  | cons c' cs ih =>
    rw [List.cons_append, Download.opsOf, ih, ← List.append_assoc]
    rfl

/-! ## When the file is used safely -/

/-- After the commands `cs`, `c` is safe: the last chunk of a download was not among them,
    and if it is the last chunk a file is open, and is not given up. -/
def DownloadAllowed (cs : List DownloadCommand) (c : DownloadCommand) : Prop :=
  (∀ c' ∈ cs, ¬c'.Finishes) ∧
    (c.Finishes → (Download.initial.after cs).file.isSome ∧ ¬c.GivesUp)

/-- While no download has finished, the file that is kept is open. -/
structure FileOpen (ops : List (Op Nat)) (d : Download) : Prop where
  safe : Safe ops
  held : ∀ n, d.file = some n → Held ops n
  fresh : ∀ n, .acquire n ∈ ops → n < d.fopens

/-- When one has, the file is kept but closed. -/
structure FileStale (ops : List (Op Nat)) (d : Download) : Prop where
  safe : Safe ops
  stale : ∃ n, d.file = some n ∧ .release (some n) ∈ ops

section

variable {ops : List (Op Nat)} {d : Download} {c : DownloadCommand}

theorem fileOpen_initial : FileOpen [] .initial := ⟨safe_nil, nofun, nofun⟩

/-- The kept file may be closed. -/
theorem FileOpen.release (h : FileOpen ops d) :
    Safe (ops ++ if d.file.isSome then [.release d.file] else []) := by
  split
  · obtain ⟨n, hn⟩ := Option.isSome_iff_exists.mp ‹_›
    exact h.safe.concat ⟨n, hn, h.held n hn⟩
  · rw [List.append_nil]
    exact h.safe

/-- A command that does not finish the download keeps the file open. -/
theorem FileOpen.next (h : FileOpen ops d) (hc : ¬c.Finishes) :
    FileOpen (ops ++ c.ops d) (c.next d) := by
  cases c with
  | start opens =>
    -- starting over closes the file of the download before
    have hsafe := h.release
    have hfresh : ∀ n, .acquire n ∈ ops ++ (if d.file.isSome then [.release d.file] else [])
        → n < d.fopens := by
      intro n hn
      rcases List.mem_append.mp hn with hn | hn
      · exact h.fresh n hn
      · split at hn
        · exact nomatch List.mem_singleton.mp hn
        · exact nomatch hn
    -- the new file has a new number
    have hnew : .acquire d.fopens
        ∉ ops ++ (if d.file.isSome then [.release d.file] else []) :=
      fun hn => Nat.lt_irrefl _ (hfresh _ hn)
    rw [DownloadCommand.ops, ← List.append_assoc]
    generalize ops ++ (if d.file.isSome then [.release d.file] else []) = ops' at *
    cases opens with
    | false =>
      refine ⟨by rwa [if_neg Bool.false_ne_true, List.append_nil], nofun, fun n hn => ?_⟩
      rw [if_neg Bool.false_ne_true, List.append_nil] at hn
      exact Nat.lt_succ_of_lt (hfresh n hn)
    | true =>
      rw [if_pos rfl]
      refine ⟨hsafe.concat hnew, fun n hn => ?_, fun n hn => ?_⟩
      · obtain rfl := Option.some.inj hn
        exact held_acquire hsafe hnew
      · rcases List.mem_append.mp hn with hn | hn
        · exact Nat.lt_succ_of_lt (hfresh n hn)
        · rw [Op.acquire.inj (List.mem_singleton.mp hn)]
          exact Nat.lt_succ_self _
  | chunk size percent =>
    have hpercent : percent ≠ 100#32 := hc
    rw [DownloadCommand.ops, if_neg hpercent, List.append_nil]
    -- a size of -1 gives the file up, any other writes to it
    by_cases hsize : size = -1#32
    · refine ⟨by simpa only [if_pos hsize] using h.release, fun n hn => ?_, fun n hn => ?_⟩
      · rw [DownloadCommand.next, if_pos hsize] at hn
        exact nomatch hn
      · rcases List.mem_append.mp hn with hn | hn
        · exact h.fresh n hn
        · rw [if_pos hsize] at hn
          split at hn
          · exact nomatch List.mem_singleton.mp hn
          · exact nomatch hn
    · rw [if_neg hsize, DownloadCommand.next, if_neg hsize]
      split
      · obtain ⟨n, hn⟩ := Option.isSome_iff_exists.mp ‹_›
        refine ⟨h.safe.concat ⟨n, hn, h.held n hn⟩, fun m hm => ?_, fun m hm => ?_⟩
        · exact (h.held m hm).concat nofun
        · rcases List.mem_append.mp hm with hm | hm
          · exact h.fresh m hm
          · exact nomatch List.mem_singleton.mp hm
      · rw [List.append_nil]
        exact h

/-- The last chunk is safe iff there is a file that it does not give up; it leaves the
    file closed. -/
theorem FileOpen.finish (h : FileOpen ops d) (hc : c.Finishes) :
    (Safe (ops ++ c.ops d) ↔ d.file.isSome ∧ ¬c.GivesUp) ∧
      (Safe (ops ++ c.ops d) → FileStale (ops ++ c.ops d) (c.next d)) := by
  cases c with
  | start opens => exact hc.elim
  | chunk size percent =>
    have hpercent : percent = 100#32 := hc
    have hgives : (DownloadCommand.chunk size percent).GivesUp ↔ size = -1#32 := Iff.rfl
    rw [DownloadCommand.ops, if_pos hpercent, DownloadCommand.next, hgives, ← List.append_assoc]
    by_cases hsize : size = -1#32
    · -- nothing is left to close
      have hunsafe : ¬Safe (ops ++ (if d.file.isSome then
          [if size = -1#32 then .release d.file else .use d.file] else [])
            ++ [.release (if size = -1#32 then none else d.file)]) := by
        intro hsafe
        obtain ⟨x, hx, -⟩ := hsafe.legal
        rw [if_pos hsize] at hx
        exact nomatch hx
      exact ⟨iff_of_false hunsafe fun hboth => hboth.2 hsize, fun hsafe => absurd hsafe hunsafe⟩
    · rw [if_neg hsize, if_neg hsize]
      -- the last chunk closes the file, so there has to be one
      rcases hfile : d.file with _ | n
      · have hunsafe : ¬Safe (ops ++ (if (none : File).isSome then [.use none] else [])
            ++ [.release none]) := by
          intro hsafe
          obtain ⟨x, hx, -⟩ := hsafe.legal
          exact nomatch hx
        exact ⟨iff_of_false hunsafe fun hboth => Bool.false_ne_true hboth.1,
          fun hsafe => absurd hsafe hunsafe⟩
      · have hheld := h.held n hfile
        -- the write comes before the close
        have hwrite : Legal ops (.use (some n)) := ⟨n, rfl, hheld⟩
        have hclose : Legal (ops ++ [.use (some n)]) (.release (some n)) :=
          ⟨n, rfl, hheld.concat nofun⟩
        have hsafe := (h.safe.concat hwrite).concat hclose
        exact ⟨iff_of_true hsafe ⟨rfl, hsize⟩, fun _ => ⟨hsafe, n, rfl,
          List.mem_append_right _ (List.mem_singleton.mpr rfl)⟩⟩

/-- Once the file is kept but closed, the next command touches it. -/
theorem FileStale.unsafe_next (h : FileStale ops d) (c : DownloadCommand) :
    ¬Safe (ops ++ c.ops d) := by
  obtain ⟨n, hfile, hreleased⟩ := h.stale
  intro hsafe
  cases c with
  | start opens =>
    rw [DownloadCommand.ops, hfile] at hsafe
    obtain ⟨x, hx, hheld⟩ := hsafe.legal
    obtain rfl := Option.some.inj hx
    exact hheld.2 hreleased
  | chunk size percent =>
    rw [DownloadCommand.ops, hfile] at hsafe
    have hlegal : Legal ops (if size = -1#32 then .release (some n) else .use (some n)) :=
      hsafe.legal
    split at hlegal
    all_goals
      obtain ⟨x, hx, hheld⟩ := hlegal
      obtain rfl := Option.some.inj hx
      exact hheld.2 hreleased

end

/-- What the commands leave behind as long as they are allowed. -/
theorem fileOpen_or_fileStale {cs : List DownloadCommand} (h : AtEvery DownloadAllowed cs) :
    ((∀ c ∈ cs, ¬c.Finishes) ∧ FileOpen (Download.initial.opsOf cs) (Download.initial.after cs)) ∨
      ((∃ c ∈ cs, c.Finishes) ∧
        FileStale (Download.initial.opsOf cs) (Download.initial.after cs)) := by
  induction cs using List.reverseRecOn with
  | nil => exact .inl ⟨nofun, fileOpen_initial⟩
  | append_singleton cs c ih =>
    obtain ⟨hnone, hfinish⟩ := h cs c (List.prefix_refl _)
    rw [Download.opsOf_concat, Download.after_concat]
    rcases ih h.initial with ⟨-, hopen⟩ | ⟨⟨c', hc', hfin⟩, -⟩
    · by_cases hc : c.Finishes
      · obtain ⟨hiff, hstale⟩ := hopen.finish hc
        refine .inr ⟨⟨c, List.mem_append_right _ (List.mem_singleton.mpr rfl), hc⟩, ?_⟩
        exact hstale (hiff.mpr (hfinish hc))
      · refine .inl ⟨List.forall_mem_append.mpr ⟨hnone, ?_⟩, hopen.next hc⟩
        exact List.forall_mem_singleton.mpr hc
    · exact absurd hfin (hnone c' hc')

/-- The files are used safely iff every command is allowed. -/
theorem safe_opsOf_iff (cs : List DownloadCommand) :
    Safe (Download.initial.opsOf cs) ↔ AtEvery DownloadAllowed cs := by
  -- one more command is safe when the file is open, or the command needs none
  have hone : ∀ pre c, AtEvery DownloadAllowed pre →
      (Safe (Download.initial.opsOf (pre ++ [c])) ↔ DownloadAllowed pre c) := by
    intro pre c hpre
    rw [Download.opsOf_concat]
    rcases fileOpen_or_fileStale hpre with ⟨hnone, hopen⟩ | ⟨⟨c', hc', hfin⟩, hstale⟩
    · by_cases hc : c.Finishes
      · rw [(hopen.finish hc).1]
        exact ⟨fun h => ⟨hnone, fun _ => h⟩, fun h => h.2 hc⟩
      · exact iff_of_true (hopen.next hc).safe ⟨hnone, fun h => absurd h hc⟩
    · exact iff_of_false (hstale.unsafe_next c) fun h => h.1 c' hc' hfin
  -- over the commands, last one first: what is safe in the end was safe before
  induction cs using List.reverseRecOn with
  | nil => exact iff_of_true safe_nil (atEvery_nil _)
  | append_singleton cs c ih =>
    refine ⟨fun h => ?_, fun h => (hone cs c h.initial).mpr (h cs c (List.prefix_refl _))⟩
    have hcs : AtEvery DownloadAllowed cs := by
      rw [Download.opsOf_concat] at h
      exact ih.mp h.initial
    exact hcs.concat ((hone cs c hcs).mp h)

/-! ## What parsing does to the files -/

/-- The operation on files that an event is. -/
def Event.fileOp? : Event → Option (Op Nat)
  | .fopen _ file => file.map .acquire
  | .fclose file => some (.release file)
  | .fwrite _ _ file => some (.use file)
  | _ => none

/-- The operations on files of a trace. -/
def fileOps (trace : List Event) : List (Op Nat) := trace.filterMap Event.fileOp?

/-- What an argument about the download looks at. -/
def fileView (q : QwConnection) : Download × List (Op Nat) :=
  (⟨q.downloadFile, q.fopens⟩, fileOps q.trace)

theorem fileOps_append (trace es : List Event) :
    fileOps (trace ++ es) = fileOps trace ++ fileOps es := List.filterMap_append ..

theorem fileView_log {es : List Event} (h : ∀ e ∈ es, e.fileOp? = none) (q : QwConnection) :
    fileView (q.log es) = fileView q := by
  have hnone : fileOps es = [] := List.filterMap_eq_nil_iff.mpr h
  rw [fileView, QwConnection.log_trace, fileOps_append, hnone, List.append_nil]
  rfl

theorem fileView_append (text : List Byte) (q : QwConnection) :
    fileView (q.append text) = fileView q := by
  unfold QwConnection.append
  split
  · exact fileView_log (List.forall_mem_singleton.mpr rfl) q
  · rfl

theorem readsFreely_fileView : ReadsFreely fileView := by
  refine ⟨fun n q => ?_, fun q => rfl⟩
  refine (fileView_log ?_ _ : fileView (QwConnection.log (derefs q.msgReadcount n) _) = _)
  intro e he
  obtain ⟨k, -, rfl⟩ := List.mem_map.mp he
  rfl

section Arms

variable (msg : Message) (env : Env) (fuel : Nat)

theorem leaves_appendText (text : QwConnection → List Byte) :
    Leaves fileView (appendText text) := .modify fun q => fileView_append (text q) q

theorem leaves_setAbort : Leaves fileView setAbort :=
  .modify fun _ => fileView_log (List.forall_mem_singleton.mpr rfl) _

theorem leaves_msgReadString : Leaves fileView (msgReadString msg) :=
  .bind (readsFreely_fileView.leaves_msgReadStringLoop msg _ _) fun _ =>
    .seq (.modify fun _ => rfl) (.pure _)

theorem fileView_endLine (q : QwConnection) : fileView (endLine env q) = fileView q := by
  show fileView (qwcStringAdd env _ q) = fileView q
  unfold qwcStringAdd
  split
  · rfl
  · split
    · rfl
    · split <;> rfl

theorem leaves_parsePrint (s : List Byte) : Leaves fileView (parsePrint env s) := by
  refine .seq (.modify fun _ => rfl) (.seq (.modify fun q => ?_) (.modify fun q => ?_))
  · exact fileView_log (List.forall_mem_singleton.mpr rfl) q
  · unfold endLineIf
    split
    · exact fileView_endLine env q
    · rfl

theorem leaves_parsePlayerinfo : Leaves fileView (parsePlayerinfo msg) := by
  have hV := readsFreely_fileView
  have hbyte := hV.leaves_msgReadByte msg
  have hcoord := hV.leaves_msgReadCoord msg
  refine .seq hbyte (.bind (hV.leaves_msgReadShort msg) fun flags => ?_)
  have hbytes := ReadsFreely.leaves_readIf hbyte flags
  have hshorts := ReadsFreely.leaves_readIf (hV.leaves_msgReadShort msg) flags
  refine .seq hcoord (.seq hcoord (.seq hcoord (.seq hbyte (.seq (hbytes _) (.seq ?_ ?_)))))
  · exact .ite (hV.leaves_msgReadDeltaUsercmd msg) (.pure _)
  · exact .seq (hshorts _) (.seq (hshorts _) (.seq (hshorts _) (.seq (hbytes _) (.seq (hbytes _)
      (.seq (hbytes _) (hbytes _))))))

theorem leaves_parseBaseLine : Leaves fileView (parseBaseLine msg) := by
  have hV := readsFreely_fileView
  have hbyte := hV.leaves_msgReadByte msg
  have hcoord := hV.leaves_msgReadCoord msg
  have hangle := hV.leaves_msgReadAngle msg
  exact .seq (hV.leaves_msgReadShort msg) (.seq hbyte (.seq hbyte (.seq hbyte (.seq hbyte
    (.seq hcoord (.seq hangle (.seq hcoord (.seq hangle (.seq hcoord (.seq hangle (.pure _)))))))))))

theorem leaves_parseList (again : BitVec 32 → QwConnection → List Byte)
    (next : QwConnection → List Byte) : Leaves fileView (parseList msg fuel again next) := by
  have hbyte := readsFreely_fileView.leaves_msgReadByte msg
  refine .seq hbyte (.seq (.loop (.bind (leaves_msgReadString msg) fun _ => ?_) fuel)
    (.bind hbyte fun _ => .ite (leaves_appendText _) (leaves_appendText _)))
  exact .ite (.pure _) (.pure _)

theorem leaves_parsePacketEntities : Leaves fileView (parsePacketEntities msg fuel false) := by
  have hV := readsFreely_fileView
  intro q
  rcases fuel with _ | fuel
  · rfl
  · rw [parsePacketEntities_succ]
    have hpass : Leaves fileView (fullUpdatePass msg (fuel + 1) q.netchan.incomingSequence) := by
      refine .bind (hV.leaves_msgReadWord msg) fun word => .get_bind fun q => ?_
      refine .ite leaves_setAbort (.ite (.modify fun q => ?_) ?_)
      · exact fileView_log (List.forall_mem_singleton.mpr rfl) q
      · exact .seq (hV.leaves_flushEntityPacket msg _) (.modify fun _ => rfl)
    exact hpass q.updating

theorem leaves_parseTempEntity : Leaves fileView (parseTempEntity msg) := by
  have hV := readsFreely_fileView
  have hcoord := hV.leaves_msgReadCoord msg
  have hcoords : Leaves fileView (readCoords msg) := .seq hcoord (.seq hcoord (.seq hcoord (.pure _)))
  have hbeam : Leaves fileView (parseBeam msg) :=
    .seq (hV.leaves_msgReadShort msg) (.seq hcoord (.seq hcoord (.seq hcoord (.seq hcoord
      (.seq hcoord (.seq hcoord (.pure _)))))))
  refine .bind (hV.leaves_msgReadByte msg) fun type => ?_
  split
  all_goals first
    | exact hcoords
    | exact hbeam
    | exact .seq (hV.leaves_msgReadByte msg) hcoords
    | exact leaves_setAbort

theorem leaves_parseSvcServerdata : Leaves fileView (parseSvcServerdata msg fuel) := by
  have hV := readsFreely_fileView
  have hlong := hV.leaves_msgReadLong msg
  have hstring := leaves_msgReadString msg
  have hversion : Leaves fileView (readProtoversion msg fuel) := by
    refine .loop (.bind hlong fun v => .seq (.modify fun (q : QwConnection) => ?_)
      (.ite (.seq hlong (.pure _)) (.pure _))) fuel
    exact (rfl : fileView (q.setProtoversion v) = fileView q)
  refine .seq (.seq hversion (.bind hlong fun _ => .seq (.modify fun _ => rfl) (.seq hstring
    (.seq (hV.leaves_msgReadByte msg) (.seq hstring (.modify fun q => ?_)))))) ?_
  · exact fileView_log (List.forall_mem_singleton.mpr rfl) q
  · exact .seq (hV.leaves_readFloats msg 10) (leaves_appendText _)

theorem leaves_parseSoundPacket : Leaves fileView (parseSoundPacket msg) := by
  have hV := readsFreely_fileView
  have hbyte := hV.leaves_msgReadByte msg
  have hcoord := hV.leaves_msgReadCoord msg
  exact .bind (hV.leaves_msgReadShort msg) fun channel =>
    .seq (ReadsFreely.leaves_readIf hbyte _ _) (.seq (ReadsFreely.leaves_readIf hbyte _ _)
      (.seq hbyte (.seq hcoord (.seq hcoord (.seq hcoord (.pure _))))))

/-- All arms but two leave the files alone. -/
theorem leaves_parseCommand {svc : Option Svc} (hstuff : svc ≠ some .svcStufftext)
    (hdownload : svc ≠ some .svcDownload) : Leaves fileView (parseCommand msg env fuel svc) := by
  have hV := readsFreely_fileView
  have hdone : Leaves fileView (pure none : Parser (Option Unit)) := .pure none
  have hbyte := hV.leaves_msgReadByte msg
  have hshort := hV.leaves_msgReadShort msg
  have hcoord := hV.leaves_msgReadCoord msg
  have hangle := hV.leaves_msgReadAngle msg
  have hlong := hV.leaves_msgReadLong msg
  have hstring := leaves_msgReadString msg
  have hdefault : Leaves fileView (setAbort >>= fun _ => pure (some ())) :=
    .seq leaves_setAbort (.pure _)
  -- every other command only reads the message and writes texts
  rcases svc with _ | svc
  · exact hdefault
  cases svc
  case svcStufftext => exact absurd rfl hstuff
  case svcDownload => exact absurd rfl hdownload
  case svcBad | svcSetview | svcSetpause => exact hdefault
  case svcPrint => exact .seq hbyte (.bind hstring fun s => .seq (leaves_parsePrint env s) hdone)
  case svcCenterprint => exact .seq hstring hdone
  case svcDamage => exact .seq hbyte (.seq hbyte (.seq hcoord (.seq hcoord (.seq hcoord hdone))))
  case svcServerdata => exact .seq (leaves_parseSvcServerdata msg fuel) hdone
  case svcSetangle => exact .seq hangle (.seq hangle (.seq hangle hdone))
  case svcLightstyle => exact .seq (.seq hbyte (.seq hstring (.pure _))) hdone
  case svcSound => exact .seq (leaves_parseSoundPacket msg) hdone
  case svcUpdatefrags | svcUpdateping => exact .seq hbyte (.seq hshort hdone)
  case svcUpdatepl | svcUpdatestat => exact .seq hbyte (.seq hbyte hdone)
  case svcUpdateentertime => exact .seq hbyte (.seq (hV.leaves_msgReadFloat msg) hdone)
  case svcUpdateuserinfo => exact .seq hbyte (.seq hlong (.seq hstring hdone))
  case svcSpawnbaseline => exact .seq (leaves_parseBaseLine msg) hdone
  case svcTempEntity => exact .seq (leaves_parseTempEntity msg) hdone
  case svcUpdatestatlong => exact .seq hbyte (.seq hlong hdone)
  case svcSpawnstaticsound =>
    exact .seq (.seq hcoord (.seq hcoord (.seq hcoord (.seq hbyte (.seq hbyte (.seq hbyte
      (.pure _))))))) hdone
  case svcCdtrack | svcChokecount => exact .seq hbyte hdone
  case svcMuzzleflash => exact .seq hshort hdone
  case svcSetinfo => exact .seq hbyte (.seq hstring (.seq hstring hdone))
  case svcPlayerinfo => exact .seq (leaves_parsePlayerinfo msg) hdone
  case svcModellist | svcSoundlist => exact .seq (leaves_parseList msg fuel _ _) hdone
  case svcPacketentities => exact .seq (leaves_parsePacketEntities msg fuel) hdone
  all_goals exact hdone

/-! ## One pass -/

/-- What `svc_download` is about to read. -/
def readChunk : Parser DownloadCommand := do
  let size ← msgReadShort msg
  let percent ← msgReadByte msg
  pure (.chunk size percent)

/-- The command that the next pass is about to carry out, if it has to do with the
    download. -/
def downloadCommand (q : QwConnection) : Option DownloadCommand :=
  if q.msgBadread = false ∧ msg.Fits q.msgReadcount 1 then
    match Svc.ofCode (msg.at q.msgReadcount 0) with
    | some .svcStufftext =>
      (msgReadString msg (q.dispatched msg)).1.bind fun s =>
        if (ascii "download").isPrefixOf s then some (.start (env.fopen q.fopens)) else none
    | some .svcDownload => (readChunk msg (q.dispatched msg)).1
    | _ => none
  else none

/-- What a command that has to do with the download does to a view. -/
def DownloadCommand.onView : Option DownloadCommand → Download × List (Op Nat) →
    Download × List (Op Nat)
  | none, v => v
  | some c, v => (c.next v.1, v.2 ++ c.ops v.1)

theorem fileView_dispatched (q : QwConnection) : fileView (q.dispatched msg) = fileView q := by
  refine (fileView_log (List.forall_mem_singleton.mpr rfl) _).trans ?_
  exact readsFreely_fileView.advance 1 q

theorem fileView_fcloseDownload (q : QwConnection) :
    fileView (fcloseDownload q)
      = ((fileView q).1, (fileView q).2 ++ [.release (fileView q).1.file]) := by
  refine Prod.ext rfl ?_
  exact fileOps_append ..

theorem fileView_giveUpDownload (size : BitVec 32) (q : QwConnection) :
    fileView (giveUpDownload size q) =
      if size = -1#32 then (⟨none, q.fopens⟩, fileOps q.trace ++
        if q.downloadFile.isSome then [.release q.downloadFile] else []) else fileView q := by
  unfold giveUpDownload
  by_cases hsize : size = -1#32
  · rw [if_pos hsize]
    by_cases hfile : q.downloadFile.isSome
    · rw [if_pos ⟨hsize, hfile⟩, if_pos hfile]
      exact Prod.ext rfl (fileOps_append ..)
    · have hnone := Option.not_isSome_iff_eq_none.mp hfile
      rw [if_neg (fun h => hfile h.2), if_neg hfile, List.append_nil, ← hnone]
      rfl
  · rw [if_neg hsize, if_neg (fun h => hsize h.1)]

theorem fileView_writeDownload (size : BitVec 32) (q : QwConnection) :
    fileView (writeDownload size q) = (⟨q.downloadFile, q.fopens⟩,
      fileOps q.trace ++ if q.downloadFile.isSome then [.use q.downloadFile] else []) := by
  unfold writeDownload
  by_cases hfile : q.downloadFile.isSome
  · rw [if_pos hfile, if_pos hfile]
    exact Prod.ext rfl (fileOps_append ..)
  · rw [if_neg hfile, if_neg hfile, List.append_nil]
    rfl

theorem leaves_sayPercent (percent : BitVec 32) :
    Leaves fileView (RunM.modify (sayPercent percent)) := by
  refine .modify fun q => ?_
  unfold sayPercent
  split
  · exact fileView_append _ { q with lp := percent }
  · rfl

/-- Giving up and writing: what is left of the file, and what has been done to it. -/
theorem fileView_writeChunk (size percent : BitVec 32) (q : QwConnection) :
    fileView (writeDownload size (giveUpDownload size q))
      = ((DownloadCommand.chunk size percent).next (fileView q).1, (fileView q).2
          ++ if (fileView q).1.file.isSome then
            [if size = -1#32 then .release (fileView q).1.file else .use (fileView q).1.file]
          else []) := by
  have hgive := fileView_giveUpDownload size q
  rw [fileView_writeDownload]
  -- given up, the file is closed and then not written
  by_cases hsize : size = -1#32
  · rw [if_pos hsize] at hgive
    obtain ⟨hdownload, hops⟩ := Prod.mk.inj hgive
    obtain ⟨hfile, hfopens⟩ := Download.mk.inj hdownload
    rw [hops, hfile, hfopens, Option.isSome_none, if_neg Bool.false_ne_true, List.append_nil,
      DownloadCommand.next, if_pos hsize, if_pos hsize]
    rfl
  · rw [if_neg hsize] at hgive
    obtain ⟨hdownload, hops⟩ := Prod.mk.inj hgive
    obtain ⟨hfile, hfopens⟩ := Download.mk.inj hdownload
    rw [hops, hfile, hfopens, DownloadCommand.next, if_neg hsize, if_neg hsize]
    rfl

/-- `ParseDownload`, with the chunk that it reads. -/
theorem fileView_parseDownload {q q' : QwConnection} (h : parseDownload msg q = (some (), q')) :
    fileView q' = DownloadCommand.onView (readChunk msg q).1 (fileView q) := by
  have hV := readsFreely_fileView
  obtain ⟨size, q₁, hsize, h⟩ := bind_eq_some h
  obtain ⟨percent, q₂, hpercent, h⟩ := bind_eq_some h
  have hchunk : (readChunk msg q).1 = some (.chunk size percent) := by
    have hread : readChunk msg q = (some (.chunk size percent), q₂) :=
      (bind_some hsize).trans (bind_some hpercent)
    rw [hread]
  have hread : fileView (setPercentage percent q₂) = fileView q :=
    ((hV.leaves_msgReadByte msg).eq hpercent).trans ((hV.leaves_msgReadShort msg).eq hsize)
  rw [hchunk]
  generalize hq₃ : setPercentage percent q₂ = q₃ at hread
  have hrest : downloadReply percent (writeDownload size (giveUpDownload size q₃))
      = (some (), q') := by
    rw [← hq₃]
    exact h
  have hwrite := fileView_writeChunk size percent q₃
  rw [hread] at hwrite
  generalize writeDownload size (giveUpDownload size q₃) = q₄ at hrest hwrite
  obtain ⟨hnext, hops⟩ := Prod.mk.inj hwrite
  have hfile : q₄.downloadFile = if size = -1#32 then none else (fileView q).1.file :=
    congrArg Download.file hnext
  unfold downloadReply at hrest
  rw [DownloadCommand.onView, DownloadCommand.ops, ← List.append_assoc, ← hops, ← hnext]
  -- at a hundred percent the file is closed, else the next chunk is asked for
  by_cases hdone : percent = 100#32
  · rw [if_neg (not_not_intro hdone)] at hrest
    obtain ⟨_, q₅, htext, hclose⟩ := bind_eq_some hrest
    obtain ⟨-, rfl⟩ := Prod.mk.inj hclose
    have hsame : fileView q₅ = fileView q₄ := (leaves_appendText _).eq htext
    rw [if_pos hdone, ← hfile]
    show fileView (fcloseDownload q₅) = _
    rw [fileView_fcloseDownload, hsame]
    rfl
  · rw [if_pos hdone] at hrest
    rw [if_neg hdone, List.append_nil]
    exact (Leaves.seq (leaves_sayPercent percent) (leaves_appendText _)).eq hrest

theorem fileView_fopenDownload (name : List Byte) (q : QwConnection) :
    fileView (fopenDownload env name q)
      = (⟨if env.fopen q.fopens then some q.fopens else none, q.fopens + 1⟩,
          fileOps q.trace ++ if env.fopen q.fopens then [.acquire q.fopens] else []) := by
  refine Prod.ext rfl ?_
  show fileOps (q.trace ++ _) = _
  rw [fileOps_append]
  cases env.fopen q.fopens
  · rfl
  · rfl

theorem fileView_start (name : List Byte) (q : QwConnection) :
    fileView (fopenDownload env name (if q.downloadFile.isSome then fcloseDownload q else q))
      = DownloadCommand.onView (some (.start (env.fopen q.fopens))) (fileView q) := by
  have hclose : fileView (if q.downloadFile.isSome then fcloseDownload q else q)
      = ((fileView q).1, (fileView q).2
          ++ if q.downloadFile.isSome then [.release q.downloadFile] else []) := by
    split
    · exact fileView_fcloseDownload q
    · rw [List.append_nil]
  rw [fileView_fopenDownload]
  generalize (if q.downloadFile.isSome then fcloseDownload q else q) = q₁ at hclose
  obtain ⟨hdownload, hops⟩ := Prod.mk.inj hclose
  have hfopens : q₁.fopens = q.fopens := congrArg Download.fopens hdownload
  rw [DownloadCommand.onView, DownloadCommand.next, DownloadCommand.ops, hfopens, hops,
    ← List.append_assoc]
  rfl

/-- `svc_stufftext`, with the string that it reads. -/
theorem fileView_stufftext {s : List Byte} {q q' : QwConnection}
    (h : stufftext env s q = (some (), q')) :
    fileView q' = DownloadCommand.onView
      (if (ascii "download").isPrefixOf s then some (.start (env.fopen q.fopens)) else none)
      (fileView q) := by
  have hdone : Leaves fileView (pure () : Parser Unit) := .pure ()
  obtain ⟨_, q₁, hcmd, h⟩ := bind_eq_some h
  obtain ⟨_, q₂, hskins, hdownload⟩ := bind_eq_some h
  have hsame : fileView q₂ = fileView q :=
    ((Leaves.ite (leaves_appendText _) hdone).eq hskins).trans
      ((Leaves.ite (leaves_appendText _) hdone).eq hcmd)
  have hfopens : q.fopens = q₂.fopens := congrArg (fun v => v.1.fopens) hsame.symm
  rw [← hsame, hfopens]
  -- of the texts only `download` touches the file
  by_cases hdown : (ascii "download").isPrefixOf s
  · rw [if_pos hdown] at hdownload ⊢
    obtain ⟨_, q₃, hclose, h⟩ := bind_eq_some hdownload
    obtain ⟨_, q₄, hopen, htext⟩ := bind_eq_some h
    obtain ⟨-, rfl⟩ := Prod.mk.inj hclose
    obtain ⟨-, rfl⟩ := Prod.mk.inj hopen
    rw [(leaves_appendText _).eq htext]
    exact fileView_start env _ q₂
  · rw [if_neg hdown] at hdownload ⊢
    exact hdone.eq hdownload

/-- What one pass does to the files. -/
theorem fileView_pass {q q' : QwConnection} {r : Option Unit}
    (h : serverMessagePass msg env fuel q = (some r, q')) :
    fileView q' = DownloadCommand.onView (downloadCommand msg env q) (fileView q) := by
  have habort : fileView ({ q with abort := true }.log [.abort]) = fileView q :=
    fileView_log (List.forall_mem_singleton.mpr rfl) _
  unfold downloadCommand
  -- a pass stops at a bad read or at the message's end, or does one command
  by_cases hbad : q.msgBadread = true
  · rw [serverMessagePass_badread msg env fuel hbad] at h
    obtain ⟨-, rfl⟩ := Prod.mk.inj h
    rw [if_neg fun h => Bool.false_ne_true (h.1.symm.trans hbad)]
    exact habort
  have hread : q.msgBadread = false := Bool.not_eq_true _ ▸ hbad
  by_cases hfit : msg.Fits q.msgReadcount 1
  · rw [serverMessagePass_dispatch msg env fuel hread hfit] at h
    rw [if_pos ⟨hread, hfit⟩, ← fileView_dispatched msg q]
    have hfopens : q.fopens = (q.dispatched msg).fopens := rfl
    rw [hfopens]
    generalize Svc.ofCode (msg.at q.msgReadcount 0) = svc at h ⊢
    generalize q.dispatched msg = q₁ at h ⊢
    by_cases hstuff : svc = some .svcStufftext
    · subst hstuff
      obtain ⟨s, q₂, hstring, h⟩ := bind_eq_some h
      obtain ⟨_, q₃, htext, hdone⟩ := bind_eq_some h
      obtain ⟨-, rfl⟩ := Prod.mk.inj hdone
      have hsame : fileView q₂ = fileView q₁ := (leaves_msgReadString msg).eq hstring
      rw [fileView_stufftext env htext, hsame]
      have hfopens : q₂.fopens = q₁.fopens := congrArg (fun v => v.1.fopens) hsame
      show _ = DownloadCommand.onView ((msgReadString msg q₁).1.bind _) _
      rw [hstring, hfopens]
      rfl
    by_cases hdownload : svc = some .svcDownload
    · subst hdownload
      obtain ⟨_, q₂, hparse, hdone⟩ := bind_eq_some h
      obtain ⟨-, rfl⟩ := Prod.mk.inj hdone
      exact fileView_parseDownload msg hparse
    · rw [(leaves_parseCommand msg env fuel hstuff hdownload).eq h]
      split
      · exact absurd rfl hstuff
      · exact absurd rfl hdownload
      · rfl
  · rw [serverMessagePass_end msg env fuel hread hfit] at h
    obtain ⟨-, rfl⟩ := Prod.mk.inj h
    rw [if_neg fun h => hfit h.2]
    refine (fileView_log (List.forall_mem_singleton.mpr rfl) _).trans ?_
    exact readsFreely_fileView.markBadread q

end Arms

/-! ## Runs -/

/-- The command of a step that has to do with the download. -/
def Session.command (env : Env) (a : SessionAction) (s : Session) : Option DownloadCommand :=
  match a with
  | .receive _ _ _ => none
  | .pass _ => s.reading.bind fun msg => downloadCommand msg env s.conn

/-- The commands of a run that have to do with the download. -/
def commandsOf (env : Env) : List SessionAction → Session → List DownloadCommand
  | [], _ => []
  | a :: as, s => (s.command env a).toList ++ match s.step env a with
    | some s' => commandsOf env as s'
    | none => []

theorem fileView_step {env : Env} {a : SessionAction} {s s' : Session}
    (h : s.step env a = some s') :
    fileView s'.conn = DownloadCommand.onView (s.command env a) (fileView s.conn) := by
  cases a with
  | receive msg frames outgoing =>
    obtain rfl := Session.receive_spec h
    have hV := readsFreely_fileView
    have hread : Leaves fileView (readSequences msg) := .seq (.modify fun _ => rfl)
      (.bind (hV.leaves_msgReadLong msg) fun _ => .seq (.modify fun _ => rfl)
        (.bind (hV.leaves_msgReadLong msg) fun _ => .modify fun _ => rfl))
    exact hread (s.conn.copyFrames frames outgoing)
  | pass fuel =>
    obtain ⟨msg, r, hreading, hpass, -⟩ := Session.pass_spec h
    rw [fileView_pass msg env fuel hpass, Session.command, hreading]
    rfl

/-- What a run does to the files is what its commands do. -/
theorem fileView_run {env : Env} {as : List SessionAction} {s s' : Session}
    (h : (session env).run as s = some s') :
    fileView s'.conn = ((fileView s.conn).1.after (commandsOf env as s),
      (fileView s.conn).2 ++ (fileView s.conn).1.opsOf (commandsOf env as s)) := by
  induction as generalizing s with
  | nil =>
    obtain rfl := Option.some.inj h
    exact Prod.ext rfl (List.append_nil _).symm
  | cons a as ih =>
    obtain ⟨s₁, hstep, hrest⟩ := Transitions.run_cons.mp h
    have hstep' : s.step env a = some s₁ := hstep
    rw [commandsOf, hstep', ih hrest, fileView_step hstep']
    cases s.command env a with
    | none => rfl
    | some c => exact Prod.ext rfl (List.append_assoc ..)

/-- Files are used safely, and none is closed twice. -/
structure FilesSafe (trace : List Event) : Prop where
  safe : Safe (fileOps trace)
  once : ∀ n, (fileOps trace).count (.release (some n)) ≤ 1

theorem filesSafe_iff (trace : List Event) : FilesSafe trace ↔ Safe (fileOps trace) :=
  ⟨FilesSafe.safe, fun h => ⟨h, h.count_release⟩⟩

/-- The files are used safely iff the last chunk of a download comes at most once, when a
    file is open, and after it no other command of a download. -/
theorem downloads_safe_iff {env : Env} {as : List SessionAction} {s s' : Session}
    (hinit : (session env).Init s) (hrun : (session env).run as s = some s') :
    FilesSafe s'.conn.trace ↔ AtEvery DownloadAllowed (commandsOf env as s) := by
  have hinit' : s = ⟨.fresh, none⟩ := hinit
  have hview : fileView s.conn = (.initial, []) := by
    rw [hinit']
    rfl
  have hafter := fileView_run hrun
  rw [hview] at hafter
  have hops : fileOps s'.conn.trace = Download.initial.opsOf (commandsOf env as s) :=
    congrArg Prod.snd hafter
  rw [filesSafe_iff, hops, safe_opsOf_iff]

/-- A download of one empty chunk, and the beginning of the next. -/
def twoDownloads : List Byte :=
  [1, 0, 0, 0, 0, 0, 0, 0] ++ [9] ++ ascii "download a" ++ [0] ++ [41, 0, 0, 100]
    ++ [9] ++ ascii "download b" ++ [0]

/-- The first commands of `twoDownloads`. -/
def downloading (n : Nat) : List SessionAction :=
  .receive (.ofBytes twoDownloads (by decide)) (fun _ => ⟨0, 0, 0, ⟨0, fun _ => 0⟩, false⟩) 1
    :: List.replicate n (.pass 1)

/-- `fopen` and the allocator always succeed. -/
def Env.willing : Env := ⟨fun _ => true, fun _ => true⟩

/-- The first download is safe. -/
theorem downloads_safe_one : ∃ s, (session .willing).run (downloading 2) ⟨.fresh, none⟩ = some s ∧
    FilesSafe s.conn.trace := by
  have hends : ((session .willing).run (downloading 2) ⟨.fresh, none⟩).isSome := by decide +kernel
  obtain ⟨s, hrun⟩ := Option.isSome_iff_exists.mp hends
  have hcommands : commandsOf .willing (downloading 2) ⟨.fresh, none⟩
      = [.start true, .chunk 0 100] := by decide +kernel
  have hstart : DownloadAllowed [] (.start true) := ⟨nofun, nofun⟩
  have hsize : (0#32) ≠ -1#32 := by decide
  have hchunk : DownloadAllowed [.start true] (.chunk 0 100) :=
    ⟨List.forall_mem_singleton.mpr id, fun _ => ⟨rfl, hsize⟩⟩
  refine ⟨s, hrun, (downloads_safe_iff rfl hrun).mpr ?_⟩
  rw [hcommands]
  exact ((atEvery_nil _).concat hstart).concat hchunk

/-- The second closes the file of the first again. -/
theorem downloads_not_safe_two : ∃ s,
    (session .willing).run (downloading 3) ⟨.fresh, none⟩ = some s ∧
      fileOps s.conn.trace
        = [.acquire 0, .use (some 0), .release (some 0), .release (some 0), .acquire 1] ∧
      ¬FilesSafe s.conn.trace := by
  have hrun : ((session .willing).run (downloading 3) ⟨.fresh, none⟩).map
      (fun s => fileOps s.conn.trace)
        = some [.acquire 0, .use (some 0), .release (some 0), .release (some 0), .acquire 1] := by
    decide +kernel
  obtain ⟨s, hs, hops⟩ := Option.map_eq_some_iff.mp hrun
  refine ⟨s, hs, hops, fun h => ?_⟩
  have honce := h.once 0
  rw [hops] at honce
  exact absurd honce (by decide)

end QwNet
