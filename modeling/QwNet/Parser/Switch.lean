/-
  QwNet.Parser.Switch

  What all arms of the switch have in common: they add no event of the command loop
  to the trace, their course depends on the control part of the connection, and
  more fuel does not change what they return.
-/
import QwNet.Parser.Flush
import QwNet.Lib.Loop

namespace QwNet

open RunM

/-- The trace of `q'` is that of `q` and more, but no event of the command loop. -/
def Grows (q q' : QwConnection) : Prop :=
  ∃ es, q'.trace = q.trace ++ es ∧ ∀ e ∈ es, e.ofLoop = false

theorem Grows.refl (q : QwConnection) : Grows q q := ⟨[], (List.append_nil _).symm, by simp⟩

theorem Grows.trans (q₁ q₂ q₃ : QwConnection) (h₁ : Grows q₁ q₂) (h₂ : Grows q₂ q₃) :
    Grows q₁ q₃ := by
  obtain ⟨es₁, htrace₁, hes₁⟩ := h₁
  obtain ⟨es₂, htrace₂, hes₂⟩ := h₂
  exact ⟨es₁ ++ es₂, by rw [htrace₂, htrace₁, List.append_assoc],
    List.forall_mem_append.mpr ⟨hes₁, hes₂⟩⟩

theorem Advances.grows {msg : Message} {q q' : QwConnection} (h : Advances msg q q') :
    Grows q q' := by
  obtain ⟨es, htrace, hes, -⟩ := h.events
  exact ⟨es, htrace, hes⟩

theorem steps_grows_of_advances {msg : Message} {α : Type} {m : Parser α}
    (h : Steps (Advances msg) m) : Steps Grows m := fun q => (h q).grows

section

variable (msg : Message) (env : Env) (fuel : Nat)

/-! ## Floats -/

theorem grows_msgReadFloat : Steps Grows (msgReadFloat msg) :=
  fun _ => ⟨_, rfl, derefs_not_ofLoop _ _⟩

theorem grows_readFloats (n : Nat) : Steps Grows (readFloats msg n) := by
  induction n with
  | zero => exact steps_pure Grows.refl ()
  | succ n ih => exact steps_bind Grows.trans (grows_msgReadFloat msg) fun _ => ih

theorem grows_writeDownload (size : BitVec 32) (q : QwConnection) :
    Grows q (writeDownload size q) := by
  unfold writeDownload
  split
  · exact ⟨_, rfl, by simp [Event.ofLoop]⟩
  · exact ⟨[], (List.append_nil _).symm, by simp⟩

/-- What `ParseDownload` does once the cursor has been moved. -/
def downloadReply (percent : BitVec 32) : Parser Unit :=
  if percent ≠ 100#32 then do
    RunM.modify (sayPercent percent)
    appendText fun _ => stringcmd (ascii "nextdl")
  else do
    appendText fun _ => stringcmd (ascii "say download finished")
    RunM.modify fcloseDownload
    RunM.modify (setPercentage (-1#32))

theorem checked_downloadReply (percent : BitVec 32) :
    Checked msg fuel (downloadReply percent) := by
  have htext := checked_appendText msg fuel
  refine .ite (.seq (.quiet (quiet_sayPercent percent)) (htext _)) (.seq (htext _) ?_)
  exact .seq (.quiet quiet_fclose) (.quiet fun _ => .of_eq rfl rfl)

/-- The bookkeeping of `ParseDownload` in front of the write. -/
theorem checked_setPercentage (percent : BitVec 32) :
    Checked msg fuel (RunM.modify (setPercentage percent)) := .quiet fun _ => .of_eq rfl rfl

theorem checked_giveUpDownload (size : BitVec 32) :
    Checked msg fuel (RunM.modify (giveUpDownload size)) := .quiet (quiet_giveUpDownload size)

theorem grows_parseDownload : Steps Grows (parseDownload msg) := by
  refine steps_bind Grows.trans
    (steps_grows_of_advances (checked_msgReadShort msg 0).advances) fun size => ?_
  refine steps_bind Grows.trans
    (steps_grows_of_advances (checked_msgReadByte msg 0).advances) fun percent => ?_
  refine steps_bind Grows.trans
    (steps_grows_of_advances (checked_setPercentage msg 0 percent).advances) fun _ => ?_
  refine steps_bind Grows.trans
    (steps_grows_of_advances (checked_giveUpDownload msg 0 size).advances) fun _ => ?_
  refine steps_bind Grows.trans (steps_modify (grows_writeDownload size)) fun _ => ?_
  exact steps_grows_of_advances (checked_downloadReply msg 0 percent).advances

/-- The commands whose arm is not checked code. -/
def Svc.unchecked : List (Option Svc) :=
  [some .svcUpdateentertime, some .svcServerdata, some .svcDownload, some .svcPacketentities]

/-- All other arms are. -/
theorem checked_parseCommand {svc : Option Svc} (h : svc ∉ Svc.unchecked) :
    Checked msg fuel (parseCommand msg env fuel svc) := by
  have hdone : Checked msg fuel (pure none : Parser (Option Unit)) := .pure none
  have hbyte := checked_msgReadByte msg fuel
  have hshort := checked_msgReadShort msg fuel
  have hcoord := checked_msgReadCoord msg fuel
  have hangle := checked_msgReadAngle msg fuel
  have hlong := checked_msgReadLong msg fuel
  have hstring := checked_msgReadString msg fuel
  have hdefault : Checked msg fuel (setAbort >>= fun _ => pure (some ())) :=
    .seq (checked_setAbort msg fuel) (.pure _)
  rcases svc with _ | svc
  · exact hdefault
  cases svc
  case svcBad | svcSetview | svcSetpause => exact hdefault
  case svcPrint =>
    exact .seq hbyte (.bind hstring fun s => .seq (checked_parsePrint msg env fuel s) hdone)
  case svcCenterprint => exact .seq hstring hdone
  case svcStufftext => exact .bind hstring fun s => .seq (checked_stufftext msg env fuel s) hdone
  case svcDamage => exact .seq hbyte (.seq hbyte (.seq hcoord (.seq hcoord (.seq hcoord hdone))))
  case svcSetangle => exact .seq hangle (.seq hangle (.seq hangle hdone))
  case svcLightstyle => exact .seq (checked_parseLightstyles msg fuel) hdone
  case svcSound => exact .seq (checked_parseSoundPacket msg fuel) hdone
  case svcUpdatefrags | svcUpdateping => exact .seq hbyte (.seq hshort hdone)
  case svcUpdatepl | svcUpdatestat => exact .seq hbyte (.seq hbyte hdone)
  case svcUpdateuserinfo => exact .seq hbyte (.seq hlong (.seq hstring hdone))
  case svcSpawnbaseline => exact .seq (checked_parseBaseLine msg fuel) hdone
  case svcTempEntity => exact .seq (checked_parseTempEntity msg fuel) hdone
  case svcUpdatestatlong => exact .seq hbyte (.seq hlong hdone)
  case svcSpawnstaticsound => exact .seq (checked_parseSpawnStaticSound msg fuel) hdone
  case svcCdtrack | svcChokecount => exact .seq hbyte hdone
  case svcMuzzleflash => exact .seq hshort hdone
  case svcSetinfo => exact .seq hbyte (.seq hstring (.seq hstring hdone))
  case svcPlayerinfo => exact .seq (checked_parsePlayerinfo msg fuel) hdone
  case svcModellist => exact .seq (checked_parseModelList msg fuel) hdone
  case svcSoundlist => exact .seq (checked_parseSoundList msg fuel) hdone
  case svcUpdateentertime | svcServerdata | svcDownload | svcPacketentities =>
    exact absurd (by decide) h
  all_goals exact hdone

theorem grows_parseCommand (svc : Option Svc) : Steps Grows (parseCommand msg env fuel svc) := by
  by_cases h : svc ∈ Svc.unchecked
  · have hdone : Steps Grows (pure none : Parser (Option Unit)) := steps_pure Grows.refl none
    simp only [Svc.unchecked, List.mem_cons, List.not_mem_nil, or_false] at h
    rcases h with rfl | rfl | rfl | rfl
    · exact steps_bind Grows.trans (steps_grows_of_advances (checked_msgReadByte msg 0).advances)
        fun _ => steps_bind Grows.trans (grows_msgReadFloat msg) fun _ => hdone
    · refine steps_bind Grows.trans ?_ fun _ => hdone
      exact steps_bind Grows.trans
        (steps_grows_of_advances (checked_serverdataHeader msg fuel).advances) fun _ =>
          steps_bind Grows.trans (grows_readFloats msg 10) fun _ =>
            steps_grows_of_advances (checked_appendText msg fuel _).advances
    · exact steps_bind Grows.trans (grows_parseDownload msg) fun _ => hdone
    · exact steps_bind Grows.trans (steps_grows_of_advances (steps_parsePacketEntities msg fuel))
        fun _ => hdone
  · exact steps_grows_of_advances (checked_parseCommand msg env fuel h).advances

theorem extends_parseList {fuel fuel' : Nat} (h : fuel ≤ fuel')
    (again : BitVec 32 → QwConnection → List Byte) (next : QwConnection → List Byte) :
    Extends (parseList msg fuel again next) (parseList msg fuel' again next) :=
  .bind (.refl _) fun _ => .bind (.loop (.refl _) h) fun _ => .refl _

theorem extends_serverdataHeader {fuel fuel' : Nat} (h : fuel ≤ fuel') :
    Extends (serverdataHeader msg fuel) (serverdataHeader msg fuel') :=
  .bind (.loop (.refl _) h) fun _ => .refl _

theorem extends_parseCommand {fuel fuel' : Nat} (h : fuel ≤ fuel') (svc : Option Svc) :
    Extends (parseCommand msg env fuel svc) (parseCommand msg env fuel' svc) := by
  rcases svc with _ | svc
  · exact .refl _
  cases svc
  case svcServerdata =>
    exact .bind (.bind (extends_serverdataHeader msg h) fun _ => .refl _) fun _ => .refl _
  case svcModellist | svcSoundlist => exact .bind (extends_parseList msg h _ _) fun _ => .refl _
  case svcPacketentities => exact .bind (extends_parsePacketEntities msg h) fun _ => .refl _
  all_goals exact .refl _

/-! ## One pass of the command loop -/

/-- The byte at the cursor has been read and is about to be switched on. -/
def QwConnection.dispatched (msg : Message) (q : QwConnection) : QwConnection :=
  (q.advance 1).log [.dispatch q.msgReadcount.toNat (msg.at q.msgReadcount 0)]

theorem serverMessagePass_badread {q : QwConnection} (h : q.msgBadread = true) :
    serverMessagePass msg env fuel q
      = (some (some ()), { q with abort := true }.log [.abort]) := by
  rw [serverMessagePass, get_bind, if_pos h]
  rfl

theorem serverMessagePass_end {q : QwConnection} (h : q.msgBadread = false)
    (hfit : ¬msg.Fits q.msgReadcount 1) :
    serverMessagePass msg env fuel q
      = (some (some ()), endOfMessage q.msgReadcount q.markBadread) := by
  rw [serverMessagePass, get_bind, if_neg (by simp [h]), bind_some (msgReadByte_short hfit),
    if_pos rfl]
  rfl

theorem setWidth_byte_ne (b : Byte) : b.setWidth 32 ≠ -1#32 := by
  intro h
  have := congrArg BitVec.toNat h
  have hlt := b.isLt
  simp at this
  omega

theorem serverMessagePass_dispatch {q : QwConnection} (h : q.msgBadread = false)
    (hfit : msg.Fits q.msgReadcount 1) :
    serverMessagePass msg env fuel q
      = parseCommand msg env fuel (Svc.ofCode (msg.at q.msgReadcount 0)) (q.dispatched msg) := by
  rw [serverMessagePass, get_bind, if_neg (by simp [h]), bind_some (msgReadByte_fits hfit),
    if_neg (setWidth_byte_ne _), modify_bind, BitVec.setWidth_setWidth_of_le _ (by omega),
    BitVec.setWidth_eq]
  rfl

theorem Grows.extends_trace {q q' : QwConnection} (h : Grows q q') : q.trace <+: q'.trace := by
  obtain ⟨es, htrace, -⟩ := h
  exact ⟨es, htrace.symm⟩

theorem dispatched_trace (q : QwConnection) :
    (q.dispatched msg).trace = q.trace ++ (derefs q.msgReadcount 1
      ++ [.dispatch q.msgReadcount.toNat (msg.at q.msgReadcount 0)]) := List.append_assoc ..

/-- A pass only adds to the trace. -/
theorem steps_prefix_pass :
    Steps (fun q q' => q.trace <+: q'.trace) (serverMessagePass msg env fuel) := by
  intro q
  rcases hbad : q.msgBadread with _ | _
  · by_cases hfit : msg.Fits q.msgReadcount 1
    · rw [serverMessagePass_dispatch msg env fuel hbad hfit]
      refine List.IsPrefix.trans ?_ (grows_parseCommand msg env fuel _ _).extends_trace
      exact ⟨_, (dispatched_trace msg q).symm⟩
    · rw [serverMessagePass_end msg env fuel hbad hfit]
      exact ⟨_, rfl⟩
  · rw [serverMessagePass_badread msg env fuel hbad]
    exact ⟨_, rfl⟩

/-- And so does going on with the loop. -/
theorem steps_prefix_loop (k : Nat) :
    Steps (fun q q' => q.trace <+: q'.trace) (RunM.loop (serverMessagePass msg env fuel) k) := by
  refine steps_loop ?_ ?_ (steps_prefix_pass msg env fuel) k
  · exact fun q => List.prefix_refl _
  · exact fun _ _ _ => List.IsPrefix.trans

/-- The connection when the command loop is entered. -/
def QwConnection.entered (q : QwConnection) : QwConnection :=
  (parseClientData { q with packetCount := q.packetCount + 1#32 }).2

@[simp] theorem entered_msgReadcount (q : QwConnection) :
    q.entered.msgReadcount = q.msgReadcount := rfl

@[simp] theorem entered_msgBadread (q : QwConnection) : q.entered.msgBadread = q.msgBadread := rfl

@[simp] theorem entered_abort (q : QwConnection) : q.entered.abort = q.abort := rfl

@[simp] theorem entered_trace (q : QwConnection) : q.entered.trace = q.trace := rfl

theorem parseServerMessage_eq (q : QwConnection) :
    parseServerMessage msg env fuel q
      = RunM.loop (serverMessagePass msg env fuel) fuel q.entered := rfl

/-- The command loop of `ParseServerMessage`. -/
def commandLoop : Body QwConnection Unit where
  run := serverMessagePass msg env
  mono h := .get_bind fun _ => .ite (.refl _) (.bind (.refl _) fun _ => .ite (.refl _)
    (.bind (.refl _) fun _ => extends_parseCommand msg env h _))

end

end QwNet
