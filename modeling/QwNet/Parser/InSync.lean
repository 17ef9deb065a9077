/-
  QwNet.Parser.InSync

  When `ParseServerMessage` stays in sync with the layouts of protocol.h.

  For four of the commands it does not: the arm of `svc_time` reads no float, the
  arm of `svc_finale` no string, and `svc_setview` and `svc_setpause` have no arm.
  Nor does it where `svc_print` stores behind `qwc->buffer`, over the fields that
  come next.
-/
import QwNet.Parser.Effects
import QwNet.Parser.Layout
import QwNet.Parser.Switch

namespace QwNet

open RunM

/-! ## The arms take their layouts -/

/-- The commands whose arm does not read their layout. -/
def Command.OutOfStep (c : Command) : Prop :=
  c.svc = .svcTime ∨ c.svc = .svcFinale ∨ c.svc = .svcSetview ∨ c.svc = .svcSetpause

instance (c : Command) : Decidable c.OutOfStep := inferInstanceAs (Decidable (_ ∨ _))

section Arms

variable (msg : Message) (env : Env)

theorem takes_appendText (text : QwConnection → List Byte) :
    Takes msg [] (appendText text) fun _ => True := by
  refine .quiet (fun q => .append _ q) fun q => ?_
  unfold QwConnection.append
  split
  · rfl
  · rfl

theorem takes_parsePrint (s : List Byte) : Takes msg [] (parsePrint env s) fun _ => True := by
  have hprint : Takes msg [] (RunM.modify (printString s)) fun _ => True :=
    .quiet (quiet_printString s) fun q => rfl
  have hlog : Takes msg [] (RunM.modify (QwConnection.log [.argument (s.length - 1)]))
      fun _ => True := .quiet (fun q => .log q (by simp [Event.quiet])) fun q => rfl
  refine hprint.after (hlog.after (.quiet (quiet_endLineIf env s) fun q => ?_))
  unfold endLineIf endLine clearLine qwcStringAdd
  repeat' split
  all_goals rfl

theorem takes_stufftext (s : List Byte) : Takes msg [] (stufftext env s) fun _ => True := by
  have htext := takes_appendText msg
  refine .after (.ite (htext _) (.pure trivial)) (.after (.ite (htext _) (.pure trivial))
    (.ite (.after (.quiet ?_ fun q => ?_) (.after (.quiet (fun q => quiet_fopen env _ q) fun q => rfl)
      (htext _))) (.pure trivial)))
  · intro q
    split
    · exact quiet_fclose q
    · exact .refl q
  · split
    · rfl
    · rfl

/-- Every arm but four takes the layout of its command. -/
theorem takes_parseCommand (fuel : Nat) (c : Command) (hc : ¬c.OutOfStep) :
    Takes msg c.payload (parseCommand msg env fuel (some c.svc)) fun r => r = none := by
  have hbyte := takes_msgReadByte msg
  have hshort := takes_msgReadShort msg
  have hcoord := takes_msgReadCoord msg
  have hlong := takes_msgReadLong msg
  have hfloat := takes_msgReadFloat msg
  have hstring := takes_msgReadString msg
  have hdone : Takes msg [] (pure none : Parser (Option Unit)) fun r => r = none := .pure rfl
  -- each arm reads the fields of its command, in their order
  cases c <;> simp only [Command.payload, Command.fields, List.flatMap_cons, List.flatMap_nil]
  case updatestat stat value => exact (hbyte _).seq ((hbyte _).seq hdone)
  case setview => exact absurd (.inr (.inr (.inl rfl))) hc
  case time => exact absurd (.inl rfl) hc
  case print id text =>
    exact (hbyte _).seq ((hstring _).bind fun s _ => (takes_parsePrint msg env s).after hdone)
  case stufftext text =>
    exact (hstring _).bind fun s _ => (takes_stufftext msg env s).after hdone
  case lightstyle style map =>
    have harm : Takes msg _ (parseLightstyles msg) fun _ => True :=
      (hbyte style).seq ((hstring map).seq (.pure trivial))
    exact harm.before hdone
  case updatefrags slot frags => exact (hbyte _).seq ((hshort _).seq hdone)
  case setpause => exact absurd (.inr (.inr (.inr rfl))) hc
  case centerprint text => exact (hstring _).seq hdone
  case spawnstaticsound x y z samp vol aten =>
    have harm : Takes msg _ (parseSpawnStaticSound msg) fun _ => True :=
      (hcoord x).seq ((hcoord y).seq ((hcoord z).seq ((hbyte samp).seq ((hbyte vol).seq
        ((hbyte aten).seq (.pure trivial))))))
    exact harm.before hdone
  case finale => exact absurd (.inr (.inl rfl)) hc
  case cdtrack track => exact (hbyte _).seq hdone
  case updateping slot ping => exact (hbyte _).seq ((hshort _).seq hdone)
  case updateentertime slot entered => exact (hbyte _).seq ((hfloat _).seq hdone)
  case updatestatlong stat value => exact (hbyte _).seq ((hlong _).seq hdone)
  case muzzleflash entity => exact (hshort _).seq hdone
  case updateuserinfo slot uid userinfo =>
    exact (hbyte _).seq ((hlong _).seq ((hstring _).seq hdone))
  case chokecount packets => exact (hbyte _).seq hdone
  case updatepl slot pl => exact (hbyte _).seq ((hbyte _).seq hdone)

/-- The command byte in front of the cursor. -/
theorem InFrontOf.cmd {msg : Message} {cmd : Byte} {bytes : List Byte} {q : QwConnection}
    (hq : InFrontOf msg (cmd :: bytes) q) :
    msg.Fits q.msgReadcount 1 ∧ msg.at q.msgReadcount 0 = cmd ∧
      InFrontOf msg bytes (q.dispatched msg) ∧
      (q.dispatched msg).msgReadcount.toNat = q.msgReadcount.toNat + 1 := by
  have hfirst : InFrontOf msg ([cmd] ++ bytes) q := hq
  have hcur := msg.cursize_lt
  have hfits := hq.fits
  have hrest := hfirst.right (took_advance hfirst.left)
  refine ⟨(Message.fits_iff (by omega) (by omega)).mpr ?_, ?_, ?_, ?_⟩
  · rw [List.length_cons] at hfits
    omega
  · have := hq.has 0 (by simp)
    simpa [Message.at] using this
  · exact ⟨hrest.badread, hrest.has, hrest.fits⟩
  · exact (took_advance hfirst.left).readcount

theorem loopEvents_dispatched (msg : Message) (q : QwConnection) :
    loopEvents (q.dispatched msg).trace
      = loopEvents q.trace ++ [.dispatch q.msgReadcount.toNat (msg.at q.msgReadcount 0)] := by
  rw [QwConnection.dispatched, QwConnection.log_trace, loopEvents_append]
  congr 1
  exact loopEvents_silent _ (derefs_not_ofLoop _ _)

/-- The pass for a command dispatches it and goes on behind it, if its arm takes its
    payload. -/
theorem pass_of_takes (fuel : Nat) (c : Command) {bytes : List Byte} {q : QwConnection}
    (hq : InFrontOf msg (c.svc.code :: bytes) q)
    (harm : Takes msg bytes (parseCommand msg env fuel (some c.svc)) fun r => r = none) :
    ∃ q', serverMessagePass msg env fuel q = (some none, q') ∧
      q'.msgReadcount.toNat = q.msgReadcount.toNat + (c.svc.code :: bytes).length ∧
      q'.msgBadread = false ∧ q'.abort = q.abort ∧
      loopEvents q'.trace
        = loopEvents q.trace ++ [.dispatch q.msgReadcount.toNat c.svc.code] ∧
      parseCommand msg env fuel (some c.svc) (q.dispatched msg) = (some none, q') := by
  obtain ⟨hfit, hcmd, hfront, hrc⟩ := hq.cmd
  obtain ⟨r, q', hrun, rfl, ht⟩ := harm _ hfront
  refine ⟨q', ?_, ?_, ?_, ?_, ?_, hrun⟩
  · rw [serverMessagePass_dispatch msg env fuel hq.badread hfit, hcmd, Svc.ofCode_code]
    exact hrun
  · rw [ht.readcount, hrc, List.length_cons]
    omega
  · rw [ht.badread]
    exact hq.badread
  · rw [ht.abort]
    rfl
  · rw [ht.events, loopEvents_dispatched, hcmd]

/-- The pass for a command without an arm gives up. -/
theorem pass_of_no_arm (fuel : Nat) (c : Command) {bytes : List Byte} {q : QwConnection}
    (hq : InFrontOf msg (c.svc.code :: bytes) q)
    (harm : parseCommand msg env fuel (some c.svc) = setAbort >>= fun _ => pure (some ())) :
    ∃ q', serverMessagePass msg env fuel q = (some (some ()), q') ∧ q'.abort = true := by
  obtain ⟨hfit, hcmd, -, -⟩ := hq.cmd
  refine ⟨(setAbort (q.dispatched msg)).2, ?_, rfl⟩
  rw [serverMessagePass_dispatch msg env fuel hq.badread hfit, hcmd, Svc.ofCode_code, harm]
  rfl

end Arms

/-! ## The console line -/

/-- What `ParsePrint` works on: `buffer`, `buffer_position`, and the byte that it takes for the last
    one of an empty text. -/
structure ConsoleLine where
  buffer : OutBuf
  position : BitVec 32
  before : Byte

def QwConnection.consoleLine (q : QwConnection) : ConsoleLine :=
  ⟨q.buffer, q.bufferPosition, q.beforeReadstring⟩

/-- `buffer_position` behind a text: at 0 again if the text ends in a line feed. -/
def positionAfter (before : Byte) (position : BitVec 32) (text : List Byte) : BitVec 32 :=
  if text.getLast?.getD before = 10#8 then 0 else position + BitVec.ofNat 32 text.length

/-- Every text is printed with `buffer_position` inside `buffer`, or right behind it, where
    `snprintf` has no room. -/
def PrintsInside (before : Byte) : BitVec 32 → List (List Byte) → Prop
  | _, [] => True
  | position, text :: texts =>
    position.toNat ≤ 2048 ∧ PrintsInside before (positionAfter before position text) texts

def PrintsInside.dec (before : Byte) :
    (position : BitVec 32) → (texts : List (List Byte)) → Decidable (PrintsInside before position texts)
  | _, [] => instDecidableTrue
  | position, text :: texts =>
    have := PrintsInside.dec before (positionAfter before position text) texts
    inferInstanceAs (Decidable (_ ∧ _))

instance (before : Byte) (position : BitVec 32) (texts : List (List Byte)) :
    Decidable (PrintsInside before position texts) := PrintsInside.dec before position texts

/-- The text of `svc_print`. -/
def Command.printed? : Command → Option (List Byte)
  | .print _ text => some text.chars
  | _ => none

/-- The texts that a message prints. -/
def texts (cs : List Command) : List (List Byte) := cs.filterMap Command.printed?

/-- A buffer that is full to one byte takes two more texts. -/
example : PrintsInside 0 0 [List.replicate 2047 97, [97], [97]] ∧
    ¬PrintsInside 0 0 [List.replicate 2047 97, [97], [97], [97]] := by
  decide +kernel

namespace ConsoleLine

/-- A text is printed. -/
def print (s : List Byte) (l : ConsoleLine) : ConsoleLine where
  buffer :=
    let buffer := snprintfString l.buffer l.position.toNat (bufferRoom l.position) s
    if s.getLast?.getD l.before = 10#8 then buffer.store 0 0 else buffer
  position := positionAfter l.before l.position s
  before := l.before

/-- `snprintf` keeps to the buffer as long as the position has not left it. -/
theorem snprintf_storesIn_iff (buffer : OutBuf) (position : BitVec 32) (s : List Byte) :
    buffer.StoresIn (snprintfString buffer position.toNat (bufferRoom position) s) 0 2048 ↔
      position.toNat ≤ 2048 := by
  constructor
  · rintro ⟨new, hnew, hall⟩
    by_contra hbehind
    have hroom : bufferRoom position ≠ 0 := by
      have hlt := position.isLt
      rw [bufferRoom, BitVec.toInt_eq_toNat_cond]
      split
      · omega
      · omega
    obtain ⟨new', hnew', hstored⟩ :=
      stores_snprintfString buffer position.toNat (bufferRoom position) s
    obtain rfl : new = new' := List.append_cancel_left (hnew.symm.trans hnew')
    obtain ⟨j, hj, hle⟩ := hstored hroom
    have hlt := (hall j hj).2
    omega
  · intro hle
    rw [bufferRoom_of_le hle]
    rcases Nat.lt_or_eq_of_le hle with hlt | heq
    · exact (storesWithin_snprintfString buffer s hlt).storesIn (by decide)
    · rw [snprintfString, if_pos (by omega)]
      exact buffer.storesIn_refl 0 2048

theorem print_grows (s : List Byte) (l : ConsoleLine) :
    ∃ new, (l.print s).buffer.stores = l.buffer.stores ++ new := by
  obtain ⟨new, heq, -⟩ :=
    stores_snprintfString l.buffer l.position.toNat (bufferRoom l.position) s
  unfold print
  dsimp only
  split
  · exact ⟨new ++ [0], by rw [OutBuf.store_stores, heq, List.append_assoc]⟩
  · exact ⟨new, heq⟩

theorem print_storesIn_iff (s : List Byte) (l : ConsoleLine) :
    l.buffer.StoresIn (l.print s).buffer 0 2048 ↔ l.position.toNat ≤ 2048 := by
  obtain ⟨new, heq, -⟩ :=
    stores_snprintfString l.buffer l.position.toNat (bufferRoom l.position) s
  rw [← snprintf_storesIn_iff l.buffer l.position s]
  unfold print
  dsimp only
  split
  · -- the end of the line stores at 0
    rw [OutBuf.storesIn_trans_iff ⟨new, heq⟩ ⟨[0], rfl⟩]
    exact and_iff_left ⟨[0], rfl, List.forall_mem_singleton.mpr ⟨Nat.le_refl 0, by decide⟩⟩
  · rfl

/-- Texts keep to the buffer iff the position never leaves it. -/
theorem foldl_print_storesIn_iff (texts : List (List Byte)) (l : ConsoleLine) :
    l.buffer.StoresIn (texts.foldl (fun l s => l.print s) l).buffer 0 2048 ↔
      PrintsInside l.before l.position texts := by
  induction texts generalizing l with
  | nil => exact iff_of_true (l.buffer.storesIn_refl 0 2048) trivial
  | cons s texts ih =>
    have hgrows : ∀ (texts : List (List Byte)) (l : ConsoleLine), ∃ new,
        (texts.foldl (fun l s => l.print s) l).buffer.stores = l.buffer.stores ++ new := by
      intro texts
      induction texts with
      | nil => exact fun l => ⟨[], (List.append_nil _).symm⟩
      | cons s texts ih =>
        intro l
        obtain ⟨new, hnew⟩ := l.print_grows s
        obtain ⟨new', hnew'⟩ := ih (l.print s)
        exact ⟨new ++ new', by rw [List.foldl_cons, hnew', hnew, List.append_assoc]⟩
    rw [List.foldl_cons, OutBuf.storesIn_trans_iff (l.print_grows s) (hgrows texts _),
      print_storesIn_iff, ih]
    rfl

/-- `ParsePrint` prints its text. -/
theorem consoleLine_parsePrint (env : Env) (s : List Byte) (q : QwConnection) :
    (parsePrint env s q).2.consoleLine = q.consoleLine.print s := by
  have hadd : ∀ (text : List Byte) (q : QwConnection),
      (qwcStringAdd env text q).consoleLine = q.consoleLine := by
    intro text q
    unfold qwcStringAdd
    split
    · rfl
    · split
      · rfl
      · split <;> rfl
  show (endLineIf env s ((printString s q).log [.argument (s.length - 1)])).consoleLine = _
  unfold endLineIf lastChar print positionAfter
  split
  · rename_i hlast
    have hlast' : s.getLast?.getD q.consoleLine.before = 10#8 := hlast
    dsimp only
    rw [if_pos hlast', if_pos hlast']
    show ConsoleLine.mk (OutBuf.store (QwConnection.consoleLine _).buffer 0 0) 0
      (QwConnection.consoleLine _).before = _
    rw [hadd]
    rfl
  · rename_i hlast
    have hlast' : ¬s.getLast?.getD q.consoleLine.before = 10#8 := hlast
    dsimp only
    rw [if_neg hlast', if_neg hlast']
    rfl

section Arms

variable (msg : Message) (env : Env)

theorem readsFreely : ReadsFreely QwConnection.consoleLine := ⟨fun _ _ => rfl, fun _ => rfl⟩

theorem leaves_append (text : QwConnection → List Byte) :
    Leaves QwConnection.consoleLine (appendText text) := by
  refine .modify fun q => ?_
  unfold QwConnection.append
  split
  · rfl
  · rfl

theorem leaves_readString : Leaves QwConnection.consoleLine (msgReadString msg) :=
  .bind (readsFreely.leaves_msgReadStringLoop msg _ _) fun _ => .seq (.modify fun _ => rfl) (.pure _)

theorem leaves_stufftext (s : List Byte) :
    Leaves QwConnection.consoleLine (stufftext env s) := by
  refine .seq (.ite (leaves_append _) (.pure _)) (.seq (.ite (leaves_append _) (.pure _))
    (.ite (.seq (.modify fun q => ?_) (.seq (.modify fun _ => rfl) (leaves_append _))) (.pure _)))
  split
  · rfl
  · rfl

/-- An arm prints the text of its command, and nothing else. -/
theorem consoleLine_parseCommand (fuel : Nat) (c : Command) (hc : ¬c.OutOfStep) {r : Option Unit}
    {q q' : QwConnection} (hq : InFrontOf msg c.payload q)
    (hrun : parseCommand msg env fuel (some c.svc) q = (some r, q')) :
    q'.consoleLine = (texts [c]).foldl (fun l s => l.print s) q.consoleLine := by
  have hV := readsFreely
  have hbyte := hV.leaves_msgReadByte msg
  have hshort := hV.leaves_msgReadShort msg
  have hcoord := hV.leaves_msgReadCoord msg
  have hlong := hV.leaves_msgReadLong msg
  have hfloat := hV.leaves_msgReadFloat msg
  have hstring := leaves_readString msg
  have hdone : ∀ r, Leaves QwConnection.consoleLine (pure r : Parser (Option Unit)) := .pure
  have hleaves : ∀ {m : Parser (Option Unit)}, Leaves QwConnection.consoleLine m →
      m q = (some r, q') → q'.consoleLine = q.consoleLine := fun hm hrun => hm.eq hrun
  cases c
  case print id text =>
    obtain ⟨id', q₁, hid, hrun⟩ := bind_eq_some hrun
    obtain ⟨s, q₂, hs, hrun⟩ := bind_eq_some hrun
    obtain ⟨u, q₃, hprint, hdone⟩ := bind_eq_some hrun
    obtain rfl := (Prod.mk.inj hdone).2
    -- the string that was read is the text
    obtain rfl : s = text.chars := by
      have hpayload : InFrontOf msg ((Field.byte id).bytes ++ (Field.string text).bytes) q := by
        rw [← List.append_nil (Field.string text).bytes]
        exact hq
      obtain ⟨_, q₁', hrun₁, -, htook⟩ := takes_msgReadByte msg id q hpayload.left
      obtain rfl := (Prod.mk.inj (hid.symm.trans hrun₁)).2
      obtain ⟨s', q₂', hrun₂, rfl, -⟩ := takes_msgReadString msg text q₁ (hpayload.right htook)
      exact Option.some.inj (Prod.mk.inj (hs.symm.trans hrun₂)).1
    have hline := consoleLine_parsePrint env text.chars q₂
    rw [hprint, hstring.eq hs, hbyte.eq hid] at hline
    exact hline
  case setview => exact absurd (.inr (.inr (.inl rfl))) hc
  case time => exact absurd (.inl rfl) hc
  case setpause => exact absurd (.inr (.inr (.inr rfl))) hc
  case finale => exact absurd (.inr (.inl rfl)) hc
  all_goals refine hleaves ?_ hrun
  case stufftext text => exact .bind hstring fun s => .seq (leaves_stufftext env s) (hdone _)
  case lightstyle => exact .seq (.seq hbyte (.seq hstring (.pure _))) (hdone _)
  case centerprint => exact .seq hstring (hdone _)
  case spawnstaticsound =>
    exact .seq (.seq hcoord (.seq hcoord (.seq hcoord (.seq hbyte (.seq hbyte (.seq hbyte (.pure _)))))))
      (hdone _)
  case cdtrack | chokecount => exact .seq hbyte (hdone _)
  case updatestat | updatepl => exact .seq hbyte (.seq hbyte (hdone _))
  case updatefrags | updateping => exact .seq hbyte (.seq hshort (hdone _))
  case updateentertime => exact .seq hbyte (.seq hfloat (hdone _))
  case updatestatlong => exact .seq hbyte (.seq hlong (hdone _))
  case muzzleflash => exact .seq hshort (hdone _)
  case updateuserinfo => exact .seq hbyte (.seq hlong (.seq hstring (hdone _)))

end Arms

end ConsoleLine

/-! ## A whole message -/

/-- A list of commands on the wire. -/
def encodeAll (cs : List Command) : List Byte := cs.flatMap Command.encode

/-- The dispatches of a parse that is in sync: each command byte where it stands. -/
def dispatches (pos : Nat) : List Command → List Event
  | [] => []
  | c :: cs => .dispatch pos c.svc.code :: dispatches (pos + c.encode.length) cs

theorem dispatches_append (pos : Nat) (cs₁ cs₂ : List Command) :
    dispatches pos (cs₁ ++ cs₂)
      = dispatches pos cs₁ ++ dispatches (pos + (encodeAll cs₁).length) cs₂ := by
  induction cs₁ generalizing pos with
  | nil => simp [dispatches, encodeAll]
  | cons c cs₁ ih =>
    simp only [List.cons_append, dispatches, ih, encodeAll, List.flatMap_cons, List.length_append]
    rw [Nat.add_assoc]

/-- The message from the cursor to its end is the encoding of `cs`, and nothing has gone
    wrong yet. -/
structure Carries (msg : Message) (cs : List Command) (q : QwConnection) : Prop where
  inFront : InFrontOf msg (encodeAll cs) q
  ends : q.msgReadcount.toNat + (encodeAll cs).length = msg.cursize
  abort : q.abort = false

/-- `ParseServerMessage` dispatches exactly the commands `cs`, each at its own byte, and
    returns at the end of the message with `abort` still 0. -/
def Dispatches (msg : Message) (env : Env) (q : QwConnection) (cs : List Command)
    (q' : QwConnection) : Prop :=
  ∃ fuel, parseServerMessage msg env fuel q = (some (), q') ∧ q'.abort = false ∧
    loopEvents q'.trace = loopEvents q.trace ++ dispatches q.msgReadcount.toNat cs
      ++ [.endOfMessage msg.cursize]

/-- So it does, and it stores nothing behind `qwc->buffer`, from where on the fields of the
    connection would no longer be what the code takes them to be. -/
def InSync (msg : Message) (env : Env) (q : QwConnection) (cs : List Command) : Prop :=
  ∃ q', Dispatches msg env q cs q' ∧ q.buffer.StoresIn q'.buffer 0 2048

section Runs

variable {msg : Message} {env : Env}

/-- The loop passes through commands whose arms are in step. -/
theorem loop_through (fuel : Nat) (rest : List Byte) (good : List Command)
    (hgood : ∀ c ∈ good, ¬c.OutOfStep) {q : QwConnection}
    (hq : InFrontOf msg (encodeAll good ++ rest) q) :
    ∃ q', InFrontOf msg rest q' ∧ q'.abort = q.abort ∧
      q'.msgReadcount.toNat = q.msgReadcount.toNat + (encodeAll good).length ∧
      loopEvents q'.trace = loopEvents q.trace ++ dispatches q.msgReadcount.toNat good ∧
      q'.consoleLine = (texts good).foldl (fun l s => l.print s) q.consoleLine ∧
      ∀ k, RunM.loop (serverMessagePass msg env fuel) (good.length + k) q
        = RunM.loop (serverMessagePass msg env fuel) k q' := by
  -- over the commands in step: one pass takes each, and the reader is in front of the next
  induction good generalizing q with
  | nil => exact ⟨q, hq, rfl, rfl, by simp [dispatches], rfl, fun k => by simp⟩
  | cons c good ih =>
    have hsplit : InFrontOf msg (c.encode ++ (encodeAll good ++ rest)) q := by
      rw [← List.append_assoc]
      exact hq
    have hc := hgood c (by simp)
    obtain ⟨q₁, hpass, hrc, hbad, habort, hevents, harm⟩ :=
      pass_of_takes msg env fuel c hsplit.left (takes_parseCommand msg env fuel c hc)
    have hline := ConsoleLine.consoleLine_parseCommand msg env fuel c hc hsplit.left.cmd.2.2.1 harm
    have hq₁ : InFrontOf msg (encodeAll good ++ rest) q₁ := hsplit.right_of hrc hbad
    obtain ⟨q', hfront, habort', hrc', hevents', hline', hloop⟩ :=
      ih (fun c hc => hgood c (by simp [hc])) hq₁
    refine ⟨q', hfront, habort'.trans habort, ?_, ?_, ?_, fun k => ?_⟩
    · rw [hrc', hrc]
      simp [encodeAll, Command.encode]
      omega
    · rw [hevents', hevents, hrc, List.append_assoc]
      rfl
    · have htexts : texts (c :: good) = texts [c] ++ texts good :=
        List.filterMap_append (l := [c])
      rw [hline', hline, htexts, List.foldl_append]
      rfl
    · rw [← hloop k, List.length_cons, Nat.add_right_comm, loop_next hpass]

/-- At the end of the message the loop is left. -/
theorem loop_at_end (fuel k : Nat) {q : QwConnection} (hbad : q.msgBadread = false)
    (hend : q.msgReadcount.toNat = msg.cursize) :
    ∃ q', RunM.loop (serverMessagePass msg env fuel) (k + 1) q = (some (), q') ∧
      q'.abort = q.abort ∧ q'.consoleLine = q.consoleLine ∧
      loopEvents q'.trace = loopEvents q.trace ++ [.endOfMessage msg.cursize] := by
  have hfit : ¬msg.Fits q.msgReadcount 1 := by
    rw [Message.fits_iff (by omega) (by omega)]
    omega
  refine ⟨endOfMessage q.msgReadcount q.markBadread, ?_, rfl, rfl, ?_⟩
  · exact loop_done (serverMessagePass_end msg env fuel hbad hfit) k
  · rw [endOfMessage, QwConnection.log_trace, loopEvents_append, hend]
    rfl

theorem Carries.entered {cs : List Command} {q : QwConnection} (hq : Carries msg cs q) :
    Carries msg cs q.entered :=
  ⟨⟨hq.inFront.badread, hq.inFront.has, hq.inFront.fits⟩, hq.ends, hq.abort⟩

/-- Every command but four is dispatched in step, however many there are. -/
theorem dispatches_of_good (env : Env) {cs : List Command} {q : QwConnection} (hq : Carries msg cs q)
    (hgood : ∀ c ∈ cs, ¬c.OutOfStep) : ∃ q', Dispatches msg env q cs q' ∧
      q'.consoleLine = (texts cs).foldl (fun l s => l.print s) q.consoleLine := by
  have hfront : InFrontOf msg (encodeAll cs ++ []) q.entered := by
    rw [List.append_nil]
    exact hq.entered.inFront
  obtain ⟨q₁, hfront₁, habort₁, hrc₁, hevents₁, hline₁, hloop⟩ :=
    loop_through (cs.length + 1) [] cs hgood hfront
  obtain ⟨q', hrun, habort', hline', hevents'⟩ := loop_at_end (cs.length + 1) 0 hfront₁.badread
    (hrc₁.trans hq.entered.ends)
  refine ⟨q', ⟨cs.length + 1, ?_, ?_, ?_⟩, ?_⟩
  · rw [parseServerMessage_eq, hloop, hrun]
  · rw [habort', habort₁, hq.entered.abort]
  · rw [hevents', hevents₁]
    rfl
  · rw [hline', hline₁]
    rfl

/-- There is one such run, and whether it keeps to the buffer is up to the texts. -/
theorem inSync_iff_of_good {cs : List Command} {q : QwConnection} (hq : Carries msg cs q)
    (hgood : ∀ c ∈ cs, ¬c.OutOfStep) :
    InSync msg env q cs ↔ PrintsInside q.beforeReadstring q.bufferPosition (texts cs) := by
  obtain ⟨q', hdispatches, hline⟩ := dispatches_of_good env hq hgood
  have hbuffer : q.buffer.StoresIn q'.buffer 0 2048 ↔
      PrintsInside q.beforeReadstring q.bufferPosition (texts cs) := by
    rw [show q'.buffer = _ from congrArg ConsoleLine.buffer hline]
    exact ConsoleLine.foldl_print_storesIn_iff (texts cs) q.consoleLine
  rw [← hbuffer]
  constructor
  · rintro ⟨q'', ⟨fuel, hrun, -⟩, hstores⟩
    obtain ⟨fuel', hrun', -⟩ := hdispatches
    have hsame := (commandLoop msg env).while_unique (n := fuel) hrun hrun'
    exact hsame.2 ▸ hstores
  · exact fun hstores => ⟨q', hdispatches, hstores⟩

/-- An arm that reads nothing leaves the first byte of the layout to the next pass. -/
theorem next_dispatch_of_reads_nothing (fuel k : Nat) {c : Command} {b : Byte} {bytes : List Byte}
    {q q' : QwConnection} (hq : InFrontOf msg (c.svc.code :: b :: bytes) q)
    (harm : parseCommand msg env fuel (some c.svc) = pure none)
    (hrun : RunM.loop (serverMessagePass msg env fuel) k q = (some (), q')) :
    loopEvents q.trace ++ [.dispatch q.msgReadcount.toNat c.svc.code,
      .dispatch (q.msgReadcount.toNat + 1) b] <+: loopEvents q'.trace := by
  have harm' : Takes msg [] (parseCommand msg env fuel (some c.svc)) fun r => r = none := by
    rw [harm]
    exact .pure rfl
  have hsplit : InFrontOf msg ([c.svc.code] ++ b :: bytes) q := hq
  obtain ⟨q₁, hpass, hrc, hbad, -, hevents, -⟩ := pass_of_takes msg env fuel c hsplit.left harm'
  obtain ⟨hfit, hcmd, -, -⟩ := (hsplit.right_of hrc hbad).cmd
  -- the first byte of the payload is taken for a command, so there is a second pass
  obtain ⟨k, rfl⟩ : ∃ n, k = n + 2 := by
    rcases k with _ | _ | k
    · exact nomatch (Prod.mk.inj hrun).1
    · rw [loop_next hpass] at hrun
      exact nomatch (Prod.mk.inj hrun).1
    · exact ⟨k, rfl⟩
  rw [loop_next hpass, RunM.loop] at hrun
  obtain ⟨r, q₂, hpass₂, hrest⟩ := bind_eq_some hrun
  rw [serverMessagePass_dispatch msg env fuel hbad hfit] at hpass₂
  have hgrows := grows_parseCommand msg env fuel (Svc.ofCode (msg.at q₁.msgReadcount 0))
    (q₁.dispatched msg)
  rw [hpass₂] at hgrows
  have hfirst : loopEvents q.trace ++ [.dispatch q.msgReadcount.toNat c.svc.code,
      .dispatch (q.msgReadcount.toNat + 1) b] <+: loopEvents q₂.trace := by
    have h : loopEvents _ <+: loopEvents _ := hgrows.extends_trace.filter _
    rw [loopEvents_dispatched, hcmd, hevents, hrc, List.append_assoc] at h
    exact h
  cases r with
  | some b =>
    obtain rfl := (Prod.mk.inj hrest).2
    exact hfirst
  | none =>
    have h := steps_prefix_loop msg env fuel k q₂
    rw [show RunM.loop (serverMessagePass msg env fuel) k q₂ = (some (), q') from hrest] at h
    exact hfirst.trans (h.filter _)

/-- A command that is out of step keeps the whole parse from being in sync. -/
theorem not_dispatches_of_outOfStep {good rest : List Command} {c : Command} {q : QwConnection}
    (hq : Carries msg (good ++ c :: rest) q) (hgood : ∀ c ∈ good, ¬c.OutOfStep)
    (hc : c.OutOfStep) (q' : QwConnection) : ¬Dispatches msg env q (good ++ c :: rest) q' := by
  rintro ⟨fuel, hrun, habort, hevents⟩
  rw [parseServerMessage_eq] at hrun
  have hbytes : encodeAll (good ++ c :: rest)
      = encodeAll good ++ (c.svc.code :: (c.payload ++ encodeAll rest)) := by
    simp [encodeAll, Command.encode]
  have hfront : InFrontOf msg (encodeAll good ++ (c.svc.code :: (c.payload ++ encodeAll rest)))
      q.entered := by
    rw [← hbytes]
    exact hq.entered.inFront
  obtain ⟨q₁, hfront₁, habort₁, hrc₁, hevents₁, -, hloop⟩ := loop_through fuel _ good hgood hfront
  -- the run as seen from the command that is out of step
  have hrun₁ : RunM.loop (serverMessagePass msg env fuel) fuel q₁ = (some (), q') := by
    rw [← hloop fuel]
    exact Extends.loop (.refl _) (by omega) _ _ _ hrun
  obtain ⟨b, bytes, hpayload⟩ : ∃ b bytes, c.payload = b :: bytes :=
    List.exists_cons_of_length_pos c.payload_length_pos
  -- an arm that reads nothing has the payload dispatched, which no sender meant
  have hreads : parseCommand msg env fuel (some c.svc) = pure none → False := by
    intro harm
    rw [hpayload, List.cons_append] at hfront₁
    have hprefix := next_dispatch_of_reads_nothing fuel fuel hfront₁ harm hrun₁
    rw [hevents, hevents₁, entered_trace, dispatches_append, List.append_assoc,
      List.append_assoc, List.append_assoc, List.prefix_append_right_inj, entered_msgReadcount,
      List.prefix_append_right_inj, hrc₁] at hprefix
    cases rest with
    | nil => simp [dispatches] at hprefix
    | cons c' rest =>
      have hlen : c.encode.length = c.payload.length + 1 := rfl
      rw [hpayload, List.length_cons] at hlen
      simp [dispatches] at hprefix
      omega
  -- a code without an arm aborts the parse
  have hdefault : parseCommand msg env fuel (some c.svc)
      = setAbort >>= (fun _ => pure (some ())) → False := by
    intro harm
    obtain ⟨q₂, hpass, habort₂⟩ := pass_of_no_arm msg env fuel c hfront₁ harm
    cases fuel with
    | zero => exact nomatch (Prod.mk.inj hrun₁).1
    | succ fuel =>
      rw [loop_done hpass] at hrun₁
      obtain rfl := (Prod.mk.inj hrun₁).2
      rw [habort] at habort₂
      exact Bool.false_ne_true habort₂
  rcases hc with hc | hc | hc | hc
  · exact hreads (by rw [hc]; rfl)
  · exact hreads (by rw [hc]; rfl)
  · exact hdefault (by rw [hc]; rfl)
  · exact hdefault (by rw [hc]; rfl)

end Runs

/-- A list either has no element with `p`, or it has a first one. -/
theorem exists_first {α : Type} (p : α → Prop) (l : List α) :
    (∀ a ∈ l, ¬p a) ∨ ∃ l₁ a l₂, l = l₁ ++ a :: l₂ ∧ (∀ a ∈ l₁, ¬p a) ∧ p a := by
  induction l with
  | nil => exact .inl (by simp)
  | cons a l ih =>
    by_cases ha : p a
    · exact .inr ⟨[], a, l, rfl, by simp, ha⟩
    · rcases ih with h | ⟨l₁, b, l₂, rfl, h₁, hb⟩
      · exact .inl (List.forall_mem_cons.mpr ⟨ha, h⟩)
      · exact .inr ⟨a :: l₁, b, l₂, rfl, List.forall_mem_cons.mpr ⟨ha, h₁⟩, hb⟩

/-- On a message made of commands with documented layouts, `ParseServerMessage` stays in
    sync iff none of them is one of the four whose arm does not read its layout, and no text is
    printed behind `qwc->buffer`. -/
theorem parseServerMessage_inSync_iff (msg : Message) (env : Env) (cs : List Command)
    (q : QwConnection) (hq : Carries msg cs q) :
    InSync msg env q cs ↔ (∀ c ∈ cs, ¬c.OutOfStep) ∧
      PrintsInside q.beforeReadstring q.bufferPosition (texts cs) := by
  rcases exists_first Command.OutOfStep cs with hgood | ⟨good, c, rest, rfl, hgood, hc⟩
  · rw [inSync_iff_of_good hq hgood]
    exact (and_iff_right hgood).symm
  · refine iff_of_false ?_ fun h => h.1 c (by simp) hc
    rintro ⟨q', hdispatches, -⟩
    exact not_dispatches_of_outOfStep hq hgood hc q' hdispatches

/-- Every list of commands has a message that carries it. -/
theorem carries_ofBytes (cs : List Command) (h : (encodeAll cs).length < 2 ^ 31) :
    Carries (.ofBytes (encodeAll cs) h) cs .fresh where
  inFront := ⟨rfl, Message.hasAt_ofBytes h, by simp [Message.ofBytes, QwConnection.fresh]⟩
  ends := by simp [Message.ofBytes, QwConnection.fresh]
  abort := rfl

/-- A line is printed in two pieces and a statistic updated in step. -/
theorem parseServerMessage_inSync_print :
    let cs := [Command.print 2 ⟨ascii "o", by decide, by decide⟩,
      .print 2 ⟨ascii "k\n", by decide, by decide⟩, .updatestat 0 100]
    InSync (.ofBytes (encodeAll cs) (by decide)) ⟨fun _ => true, fun _ => true⟩ .fresh cs :=
  (parseServerMessage_inSync_iff _ _ _ _ (carries_ofBytes _ (by decide))).mpr (by decide)

/-- `svc_time` with the server time 1.0: the parse goes on inside the float. -/
theorem parseServerMessage_not_inSync_time :
    let msg := Message.ofBytes [7, 0x00, 0x00, 0x80, 0x3f] (by decide)
    let env : Env := ⟨fun _ => true, fun _ => true⟩
    Carries msg [.time 0x3f800000#32] .fresh ∧
      ∀ q', ¬Dispatches msg env .fresh [.time 0x3f800000#32] q' := by
  have hq := carries_ofBytes ([] ++ [.time 0x3f800000#32]) (by decide)
  exact ⟨hq, not_dispatches_of_outOfStep hq (by simp) (.inl rfl)⟩

end QwNet
