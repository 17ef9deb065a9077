/-
  QwNet.Parser.ServerMessage

  `ParseServerMessage` and the arms of its switch, from main.c.

  Loops that the code does not bound take fuel; what a packet dump would print is
  left out.
-/
import QwNet.Parser.Reading

namespace QwNet

/-! ## The server-to-client commands -/

/-- The `svc_` bytes of protocol.h. -/
inductive Svc where
  | svcBad | svcNop | svcDisconnect | svcUpdatestat | svcSetview | svcSound | svcTime | svcPrint
  | svcStufftext | svcSetangle | svcServerdata | svcLightstyle | svcUpdatefrags | svcStopsound
  | svcDamage | svcSpawnstatic | svcSpawnbaseline | svcTempEntity | svcSetpause | svcCenterprint
  | svcKilledmonster | svcFoundsecret | svcSpawnstaticsound | svcIntermission | svcFinale
  | svcCdtrack | svcSellscreen | svcSmallkick | svcBigkick | svcUpdateping | svcUpdateentertime
  | svcUpdatestatlong | svcMuzzleflash | svcUpdateuserinfo | svcDownload | svcPlayerinfo | svcNails
  | svcChokecount | svcModellist | svcSoundlist | svcPacketentities | svcDeltapacketentities
  | svcMaxspeed | svcEntgravity | svcSetinfo | svcServerinfo | svcUpdatepl | svcNails2
  | svcQizmovoice
  deriving DecidableEq, Repr

/-- The command byte. -/
def Svc.code : Svc → Byte
  | .svcBad => 0 | .svcNop => 1 | .svcDisconnect => 2 | .svcUpdatestat => 3 | .svcSetview => 5
  | .svcSound => 6 | .svcTime => 7 | .svcPrint => 8 | .svcStufftext => 9 | .svcSetangle => 10
  | .svcServerdata => 11 | .svcLightstyle => 12 | .svcUpdatefrags => 14 | .svcStopsound => 16
  | .svcDamage => 19 | .svcSpawnstatic => 20 | .svcSpawnbaseline => 22 | .svcTempEntity => 23
  | .svcSetpause => 24 | .svcCenterprint => 26 | .svcKilledmonster => 27 | .svcFoundsecret => 28
  | .svcSpawnstaticsound => 29 | .svcIntermission => 30 | .svcFinale => 31 | .svcCdtrack => 32
  | .svcSellscreen => 33 | .svcSmallkick => 34 | .svcBigkick => 35 | .svcUpdateping => 36
  | .svcUpdateentertime => 37 | .svcUpdatestatlong => 38 | .svcMuzzleflash => 39
  | .svcUpdateuserinfo => 40 | .svcDownload => 41 | .svcPlayerinfo => 42 | .svcNails => 43
  | .svcChokecount => 44 | .svcModellist => 45 | .svcSoundlist => 46 | .svcPacketentities => 47
  | .svcDeltapacketentities => 48 | .svcMaxspeed => 49 | .svcEntgravity => 50 | .svcSetinfo => 51
  | .svcServerinfo => 52 | .svcUpdatepl => 53 | .svcNails2 => 54 | .svcQizmovoice => 83

/-- The command that a byte stands for. -/
def Svc.ofCode (cmd : Byte) : Option Svc :=
  [.svcBad, .svcNop, .svcDisconnect, .svcUpdatestat, .svcSetview, .svcSound, .svcTime, .svcPrint,
    .svcStufftext, .svcSetangle, .svcServerdata, .svcLightstyle, .svcUpdatefrags, .svcStopsound,
    .svcDamage, .svcSpawnstatic, .svcSpawnbaseline, .svcTempEntity, .svcSetpause, .svcCenterprint,
    .svcKilledmonster, .svcFoundsecret, .svcSpawnstaticsound, .svcIntermission, .svcFinale,
    .svcCdtrack, .svcSellscreen, .svcSmallkick, .svcBigkick, .svcUpdateping, .svcUpdateentertime,
    .svcUpdatestatlong, .svcMuzzleflash, .svcUpdateuserinfo, .svcDownload, .svcPlayerinfo,
    .svcNails, .svcChokecount, .svcModellist, .svcSoundlist, .svcPacketentities,
    .svcDeltapacketentities, .svcMaxspeed, .svcEntgravity, .svcSetinfo, .svcServerinfo,
    .svcUpdatepl, .svcNails2, .svcQizmovoice].find? fun svc => svc.code = cmd

theorem Svc.ofCode_code (svc : Svc) : Svc.ofCode svc.code = some svc := by
  cases svc <;> rfl

/-- `clc_stringcmd` and the text of a command to the server. -/
def stringcmd (s : List Byte) : List Byte := 4#8 :: s

/-! ## Printing -/

/-- `QWC_StringAdd`. -/
def qwcStringAdd (env : Env) (string : List Byte) (q : QwConnection) : QwConnection :=
  if !q.saveConsoleOutput then q
  else if !env.alloc q.allocs then { q with allocs := q.allocs + 1 }
  else if !env.alloc (q.allocs + 1) then { q with allocs := q.allocs + 2 }
  else { q with allocs := q.allocs + 2, consoleOutput := q.consoleOutput ++ [string] }

/-- `sizeof(qwc->buffer) - qwc->buffer_position`, of type `size_t`. -/
def bufferRoom (bufferPosition : BitVec 32) : Nat :=
  ((2048 - bufferPosition.toInt) % 2 ^ 64).toNat

theorem bufferRoom_of_le {bufferPosition : BitVec 32} (h : bufferPosition.toNat ≤ 2048) :
    bufferRoom bufferPosition = 2048 - bufferPosition.toNat := by
  have hint : bufferPosition.toInt = bufferPosition.toNat :=
    BitVec.toInt_eq_toNat_of_lt (by omega)
  rw [bufferRoom, hint]
  omega

/-- `s` is added to the console line.  Every store is in `buffer` with its index, also one behind
    the 2048 bytes, which overwrites what comes next in the connection. -/
def printString (s : List Byte) (q : QwConnection) : QwConnection :=
  { q with
    buffer := snprintfString q.buffer q.bufferPosition.toNat (bufferRoom q.bufferPosition) s
    bufferPosition := q.bufferPosition + BitVec.ofNat 32 s.length }

/-- The console line is empty. -/
def clearLine (q : QwConnection) : QwConnection :=
  { q with buffer := q.buffer.store 0 0, bufferPosition := 0 }

/-- The console line is handed on and a new one started. -/
def endLine (env : Env) (q : QwConnection) : QwConnection :=
  clearLine (qwcStringAdd env (cstring q.buffer.mem 2048 0) q)

/-- `s[strlen(s) - 1]`, where `s` is `readstring_buffer`. -/
def lastChar (s : List Byte) (q : QwConnection) : Byte := s.getLast?.getD q.beforeReadstring

/-- A line feed at the end of `s` ends the line. -/
def endLineIf (env : Env) (s : List Byte) (q : QwConnection) : QwConnection :=
  if lastChar s q = 10#8 then endLine env q else q

/-- `ParsePrint`. -/
def parsePrint (env : Env) (s : List Byte) : Parser Unit := do
  RunM.modify (printString s)
  RunM.modify (QwConnection.log [.argument (s.length - 1)])
  RunM.modify (endLineIf env s)

/-! ## Downloads -/

/-- `fclose(qwc->download_file)`. -/
def fcloseDownload (q : QwConnection) : QwConnection := q.log [.fclose q.downloadFile]

/-- `qwc->download_file = fopen(name, "w")`. -/
def fopenDownload (env : Env) (name : List Byte) (q : QwConnection) : QwConnection :=
  let file := if env.fopen q.fopens then some q.fopens else none
  { q with downloadFile := file, fopens := q.fopens + 1 }.log [.fopen name file]

/-- `qwc->download_file_percentage = percent`. -/
def setPercentage (percent : BitVec 32) (q : QwConnection) : QwConnection :=
  { q with downloadFilePercentage := percent }

/-- The file that `ParseDownload` was told to give up is closed. -/
def giveUpDownload (size : BitVec 32) (q : QwConnection) : QwConnection :=
  if size = -1#32 ∧ q.downloadFile.isSome then { fcloseDownload q with downloadFile := none } else q

/-- `size` bytes at the cursor are written to the file and the cursor moves by `size`. -/
def writeDownload (size : BitVec 32) (q : QwConnection) : QwConnection :=
  let q' := if q.downloadFile.isSome then
    q.log [.fwrite q.msgReadcount.toNat (size.signExtend 64).toNat q.downloadFile] else q
  { q' with msgReadcount := q.msgReadcount + size }

/-- Every tenth percent is announced once. -/
def sayPercent (percent : BitVec 32) (q : QwConnection) : QwConnection :=
  if percent.srem 10#32 = 0#32 ∧ q.lp ≠ percent then
    { q with lp := percent }.append (stringcmd (ascii "say " ++ decimal percent ++ ascii "%"))
  else q

/-- `ParseDownload`. -/
def parseDownload (msg : Message) : Parser Unit := do
  let size ← msgReadShort msg
  let percent ← msgReadByte msg
  RunM.modify (setPercentage percent)
  RunM.modify (giveUpDownload size)
  RunM.modify (writeDownload size)
  if percent ≠ 100#32 then do
    RunM.modify (sayPercent percent)
    appendText fun _ => stringcmd (ascii "nextdl")
  else do
    appendText fun _ => stringcmd (ascii "say download finished")
    RunM.modify fcloseDownload
    -- `qwc->download_file == NULL;` is a comparison
    RunM.modify (setPercentage (-1#32))

/-! ## Players, entities, sounds -/

/-- `ParsePlayerinfo`. -/
def parsePlayerinfo (msg : Message) : Parser Unit := do
  let _ ← msgReadByte msg
  let flags ← msgReadShort msg
  let _ ← msgReadCoord msg
  let _ ← msgReadCoord msg
  let _ ← msgReadCoord msg
  let _ ← msgReadByte msg
  readIf flags 0x001#32 (msgReadByte msg)
  (if flags &&& 0x002#32 ≠ 0#32 then msgReadDeltaUsercmd msg else pure ())
  readIf flags 0x004#32 (msgReadShort msg)
  readIf flags 0x008#32 (msgReadShort msg)
  readIf flags 0x010#32 (msgReadShort msg)
  readIf flags 0x020#32 (msgReadByte msg)
  readIf flags 0x040#32 (msgReadByte msg)
  readIf flags 0x080#32 (msgReadByte msg)
  readIf flags 0x100#32 (msgReadByte msg)

/-- `ParseLightstyles`. -/
def parseLightstyles (msg : Message) : Parser Unit := do
  let _ ← msgReadByte msg
  let _ ← msgReadString msg
  pure ()

/-- `ParseBaseLine`. -/
def parseBaseLine (msg : Message) : Parser Unit := do
  let _ ← msgReadShort msg
  let _ ← msgReadByte msg
  let _ ← msgReadByte msg
  let _ ← msgReadByte msg
  let _ ← msgReadByte msg
  let _ ← msgReadCoord msg
  let _ ← msgReadAngle msg
  let _ ← msgReadCoord msg
  let _ ← msgReadAngle msg
  let _ ← msgReadCoord msg
  let _ ← msgReadAngle msg
  pure ()

/-- `ParseSpawnStaticSound`. -/
def parseSpawnStaticSound (msg : Message) : Parser Unit := do
  let _ ← msgReadCoord msg
  let _ ← msgReadCoord msg
  let _ ← msgReadCoord msg
  let _ ← msgReadByte msg
  let _ ← msgReadByte msg
  let _ ← msgReadByte msg
  pure ()

/-- The loop over the names of a sound or model list: it ends with an empty string. -/
def readNames (msg : Message) (fuel : Nat) : Parser Unit :=
  RunM.loop (do
    let str ← msgReadString msg
    if str = [] then pure (some ()) else pure none) fuel

/-- `ParseSoundList` and `ParseModelList`: `again` asks for the rest of the list, `next`
    for what follows it. -/
def parseList (msg : Message) (fuel : Nat)
    (again : BitVec 32 → QwConnection → List Byte) (next : QwConnection → List Byte) :
    Parser Unit := do
  let _ ← msgReadByte msg
  readNames msg fuel
  let n ← msgReadByte msg
  if n ≠ 0#32 then appendText (again n) else appendText next

/-- `ParseSoundList`. -/
def parseSoundList (msg : Message) (fuel : Nat) : Parser Unit :=
  parseList msg fuel
    (fun n q => stringcmd (ascii "soundlist " ++ decimal q.servercount ++ ascii " " ++ decimal n))
    (fun q => stringcmd (ascii "modellist " ++ decimal q.servercount ++ ascii " 0"))

/-- `ParseModelList`. -/
def parseModelList (msg : Message) (fuel : Nat) : Parser Unit :=
  parseList msg fuel
    (fun n q => stringcmd (ascii "modellist " ++ decimal q.servercount ++ ascii " " ++ decimal n))
    (fun q => stringcmd (ascii "prespawn " ++ decimal q.servercount ++ ascii " 0 367136248"))

/-- `ParseClientData`. -/
def parseClientData : Parser Unit := RunM.modify fun q =>
  let newparsecount := q.netchan.incomingAcknowledged
  let parsecountmod := newparsecount &&& updateMask
  { q with
    oldparsecountmod := q.parsecountmod
    clOldparsecount := newparsecount - 1#32
    clParsecount := newparsecount
    parsecountmod := parsecountmod
    parsecounttime := (q.frames parsecountmod.toNat).senttime
    frames := Function.update q.frames parsecountmod.toNat
      { q.frames parsecountmod.toNat with receivedtime := q.realtime } }

/-- `ParseDelta`. -/
def parseDelta (msg : Message) (word : BitVec 32) : Parser Unit := do
  let bits ← (if word &&& ~~~511#32 &&& 0x0004#32 ≠ 0#32 then do
      let i ← msgReadByte msg
      pure (word &&& ~~~511#32 ||| i)
    else
      pure (word &&& ~~~511#32))
  readIf bits 0x0004#32 (msgReadByte msg)
  readIf bits 0x2000#32 (msgReadByte msg)
  readIf bits 0x0008#32 (msgReadByte msg)
  readIf bits 0x0010#32 (msgReadByte msg)
  readIf bits 0x0020#32 (msgReadByte msg)
  readIf bits 0x0200#32 (msgReadCoord msg)
  readIf bits 0x0001#32 (msgReadAngle msg)
  readIf bits 0x0400#32 (msgReadCoord msg)
  readIf bits 0x1000#32 (msgReadAngle msg)
  readIf bits 0x0800#32 (msgReadCoord msg)
  readIf bits 0x0002#32 (msgReadAngle msg)

/-- `word = (unsigned short) MSG_ReadShort(qwc)`. -/
def msgReadWord (msg : Message) : Parser (BitVec 32) := do
  let word ← msgReadShort msg
  pure (word &&& 0xffff#32)

/-- One pass of the loop of `FlushEntityPacket`. -/
def flushPass (msg : Message) : Parser (Option Unit) := do
  let word ← msgReadWord msg
  if word = 0#32 then
    pure (some ())
  else do
    parseDelta msg word
    pure none

/-- `FlushEntityPacket`. -/
def flushEntityPacket (msg : Message) (fuel : Nat) : Parser Unit := RunM.loop (flushPass msg) fuel

/-- The packet is flushed and its frame cannot be rendered. -/
def flushInvalid (msg : Message) (fuel : Nat) : Parser Unit := do
  flushEntityPacket msg fuel
  RunM.modify fun q => { q with validsequence := 0#32 }

/-- `oldp`: the dummy without entities, or those of a frame. -/
def QwConnection.oldPacket (q : QwConnection) : Option (BitVec 32) → PacketEntities
  | none => ⟨0#32, fun _ => 0#32⟩
  | some i => (q.frames i.toNat).packetEntities

/-- `oldindex >= oldp->num_entities ? 9999 : oldp->entities[oldindex].number`. -/
def PacketEntities.oldnum (oldp : PacketEntities) (oldindex : BitVec 32) : BitVec 32 :=
  if oldp.numEntities.sle oldindex then 9999#32 else oldp.entities oldindex.toNat

/-- `while (newnum < oldnum)`: the old entities in front of `newnum` are kept.  A full
    update has none: it is flushed and the packet given up (`none`). -/
def keepOldEntities (msg : Message) (full : Bool) (newpacket : BitVec 32)
    (old : Option (BitVec 32)) (newnum : BitVec 32) (flushFuel : Nat) :
    Nat → BitVec 32 → BitVec 32 → Parser (Option (BitVec 32 × BitVec 32))
  | 0, _, _ => fun q => (none, q)
  | fuel + 1, oldindex, newindex => do
    let q ← RunM.get
    if newnum.slt ((q.oldPacket old).oldnum oldindex) then
      if full then do
        flushInvalid msg flushFuel
        pure none
      else do
        RunM.modify (QwConnection.setFrame newpacket fun f =>
          { f with packetEntities := { f.packetEntities with
            entities := Function.update f.packetEntities.entities newindex.toNat
              ((q.oldPacket old).entities oldindex.toNat) } })
        keepOldEntities msg full newpacket old newnum flushFuel fuel (oldindex + 1#32)
          (newindex + 1#32)
    else
      pure (some (oldindex, newindex))

/-- The loop of `ParsePacketEntities`.  Its `if (newnum < oldnum)` is never entered: the
    inner loop in front of it has just ended. -/
def packetEntitiesLoop (msg : Message) (full : Bool) (newpacket : BitVec 32)
    (old : Option (BitVec 32)) (innerFuel : Nat) :
    Nat → BitVec 32 → BitVec 32 → BitVec 32 → Parser Unit
  | 0, _, _, _ => fun q => (none, q)
  | fuel + 1, oldindex, newindex, deltasequence => do
    let word ← msgReadWord msg
    let q ← RunM.get
    if q.msgBadread then
      setAbort
    else if word = 0#32 then
      RunM.modify (QwConnection.log
        [.setDeltaPoint (if deltasequence ≠ 0#32 then deltasequence else -1#32)])
    else do
      let kept ← keepOldEntities msg full newpacket old (word &&& 511#32) innerFuel innerFuel
        oldindex newindex
      match kept with
      | none => pure ()
      | some (oldindex, newindex) => do
        let q ← RunM.get
        if word &&& 511#32 = (q.oldPacket old).oldnum oldindex then do
          -- delta from previous
          (if full then RunM.modify fun q => { q with validsequence := 0#32 } else pure ())
          if word &&& 0x4000#32 ≠ 0#32 then
            packetEntitiesLoop msg full newpacket old innerFuel fuel (oldindex + 1#32) newindex
              (if full then 0#32 else deltasequence)
          else do
            parseDelta msg word
            packetEntitiesLoop msg full newpacket old innerFuel fuel (oldindex + 1#32)
              (newindex + 1#32) (if full then 0#32 else deltasequence)
        else
          packetEntitiesLoop msg full newpacket old innerFuel fuel oldindex newindex deltasequence

/-- The update begins with an empty packet, valid for the incoming sequence. -/
def beginUpdate (newpacket : BitVec 32) (q : QwConnection) : QwConnection :=
  { q with oldvalidsequence := q.validsequence, validsequence := q.netchan.incomingSequence }.setFrame
    newpacket fun f => { f with packetEntities := { f.packetEntities with numEntities := 0#32 } }

/-- The update proper, after the old packet was found. -/
def parseEntityUpdates (msg : Message) (full : Bool) (newpacket : BitVec 32)
    (old : Option (BitVec 32)) (fuel : Nat) : Parser Unit := do
  RunM.modify (beginUpdate newpacket)
  let q ← RunM.get
  packetEntitiesLoop msg full newpacket old fuel fuel 0#32 0#32 q.validsequence

/-- `qwc->frames[newpacket].invalid = false`. -/
def clearInvalid (newpacket : BitVec 32) : QwConnection → QwConnection :=
  QwConnection.setFrame newpacket fun f => { f with invalid := false }

/-- `ParsePacketEntities`. -/
def parsePacketEntities (msg : Message) (fuel : Nat) (delta : Bool) : Parser Unit := do
  let q ← RunM.get
  let newpacket := q.netchan.incomingSequence &&& updateMask
  RunM.modify (clearInvalid newpacket)
  if delta then do
    let fromByte ← msgReadByte msg
    let q ← RunM.get
    let oldpacket := (q.frames newpacket.toNat).deltaSequence
    if (63#32).sle (q.netchan.outgoingSequence - q.netchan.incomingSequence) then
      flushInvalid msg fuel
    -- `!=` binds tighter than `&`
    else if fromByte &&& (if updateMask ≠ oldpacket then 1#32 else 0#32) &&& updateMask ≠ 0#32 then
      flushInvalid msg fuel
    else if (63#32).sle (q.netchan.outgoingSequence - oldpacket) then
      flushEntityPacket msg fuel
    else
      parseEntityUpdates msg false newpacket (some (oldpacket &&& updateMask)) fuel
  else
    parseEntityUpdates msg true newpacket none fuel

/-- `ParseBeam`. -/
def parseBeam (msg : Message) : Parser Unit := do
  let _ ← msgReadShort msg
  let _ ← msgReadCoord msg
  let _ ← msgReadCoord msg
  let _ ← msgReadCoord msg
  let _ ← msgReadCoord msg
  let _ ← msgReadCoord msg
  let _ ← msgReadCoord msg
  pure ()

/-- Three coordinates in a row. -/
def readCoords (msg : Message) : Parser Unit := do
  let _ ← msgReadCoord msg
  let _ ← msgReadCoord msg
  let _ ← msgReadCoord msg
  pure ()

/-- `ParseTempEntity`. -/
def parseTempEntity (msg : Message) : Parser Unit := do
  let type ← msgReadByte msg
  match type.toNat with
  -- TE_SPIKE, TE_SUPERSPIKE, TE_EXPLOSION, TE_TAREXPLOSION, TE_WIZSPIKE, TE_KNIGHTSPIKE
  | 0 | 1 | 3 | 4 | 7 | 8 => readCoords msg
  -- TE_LIGHTNING1, TE_LIGHTNING2, TE_LIGHTNING3
  | 5 | 6 | 9 => parseBeam msg
  -- TE_LAVASPLASH, TE_TELEPORT, TE_LIGHTNINGBLOOD
  | 10 | 11 | 13 => readCoords msg
  -- TE_GUNSHOT, TE_BLOOD
  | 2 | 12 => do
    let _ ← msgReadByte msg
    readCoords msg
  | _ => setAbort

/-- `qwc->protoversion = v`. -/
def QwConnection.setProtoversion (v : BitVec 32) (q : QwConnection) : QwConnection :=
  { q with protoversion := v }

/-- `while (1)` of `Parse_svc_serverdata`: protocol extensions in front of the version. -/
def readProtoversion (msg : Message) (fuel : Nat) : Parser Unit :=
  RunM.loop (do
    let protoversion ← msgReadLong msg
    RunM.modify (QwConnection.setProtoversion protoversion)
    if protoversion = 0x58455446#32 then do
      let _ ← msgReadLong msg
      pure none
    else
      pure (some ())) fuel

/-- What `Parse_svc_serverdata` reads in front of the movement variables. -/
def serverdataHeader (msg : Message) (fuel : Nat) : Parser Unit := do
  readProtoversion msg fuel
  let servercount ← msgReadLong msg
  RunM.modify fun q => { q with servercount := servercount }
  -- gamedir
  let _ ← msgReadString msg
  -- playernum
  let _ ← msgReadByte msg
  -- levelname
  let _ ← msgReadString msg
  RunM.modify fun q => q.log [.peek q.msgReadcount.toNat]

/-- `n` floats in a row. -/
def readFloats (msg : Message) : Nat → Parser Unit
  | 0 => pure ()
  | n + 1 => do
    let _ ← msgReadFloat msg
    readFloats msg n

/-- `Parse_svc_serverdata`. -/
def parseSvcServerdata (msg : Message) (fuel : Nat) : Parser Unit := do
  serverdataHeader msg fuel
  readFloats msg 10
  appendText fun q => stringcmd (ascii "soundlist " ++ decimal q.servercount ++ ascii " 0")

/-- `ParseSoundPacket`. -/
def parseSoundPacket (msg : Message) : Parser Unit := do
  let channel ← msgReadShort msg
  readIf channel 0x8000#32 (msgReadByte msg)
  readIf channel 0x4000#32 (msgReadByte msg)
  let _ ← msgReadByte msg
  let _ ← msgReadCoord msg
  let _ ← msgReadCoord msg
  let _ ← msgReadCoord msg
  pure ()

/-- What `svc_stufftext` does with its string. -/
def stufftext (env : Env) (s : List Byte) : Parser Unit := do
  (if (ascii "cmd").isPrefixOf s then appendText fun _ => stringcmd (s.drop 3) else pure ())
  (if (ascii "skins").isPrefixOf s then
    appendText fun q => stringcmd (ascii "begin " ++ decimal q.servercount)
  else
    pure ())
  (if (ascii "download").isPrefixOf s then do
    RunM.modify fun q => if q.downloadFile.isSome then fcloseDownload q else q
    RunM.modify fun q => fopenDownload env (cstring q.readstringBuffer 2039 9) q
    appendText fun q => stringcmd (ascii "download " ++ cstring q.readstringBuffer 2039 9)
  else
    pure ())

/-! ## The switch and the command loop -/

/-- The arm of the switch for a command; `some ()` leaves `ParseServerMessage`. -/
def parseCommand (msg : Message) (env : Env) (fuel : Nat) : Option Svc → Parser (Option Unit)
  | some .svcNop => pure none
  | some .svcDisconnect => pure none
  | some .svcTime => pure none
  | some .svcPrint => do
    let _ ← msgReadByte msg
    let s ← msgReadString msg
    parsePrint env s
    pure none
  | some .svcCenterprint => do
    let _ ← msgReadString msg
    pure none
  | some .svcStufftext => do
    let s ← msgReadString msg
    stufftext env s
    pure none
  | some .svcDamage => do
    let _ ← msgReadByte msg
    let _ ← msgReadByte msg
    let _ ← msgReadCoord msg
    let _ ← msgReadCoord msg
    let _ ← msgReadCoord msg
    pure none
  | some .svcServerdata => do
    parseSvcServerdata msg fuel
    pure none
  | some .svcSetangle => do
    let _ ← msgReadAngle msg
    let _ ← msgReadAngle msg
    let _ ← msgReadAngle msg
    pure none
  | some .svcLightstyle => do
    parseLightstyles msg
    pure none
  | some .svcSound => do
    parseSoundPacket msg
    pure none
  | some .svcStopsound => pure none
  | some .svcUpdatefrags => do
    let _ ← msgReadByte msg
    let _ ← msgReadShort msg
    pure none
  | some .svcUpdateping => do
    let _ ← msgReadByte msg
    let _ ← msgReadShort msg
    pure none
  | some .svcUpdatepl => do
    let _ ← msgReadByte msg
    let _ ← msgReadByte msg
    pure none
  | some .svcUpdateentertime => do
    let _ ← msgReadByte msg
    let _ ← msgReadFloat msg
    pure none
  | some .svcUpdateuserinfo => do
    let _ ← msgReadByte msg
    let _ ← msgReadLong msg
    let _ ← msgReadString msg
    pure none
  | some .svcSpawnbaseline => do
    parseBaseLine msg
    pure none
  | some .svcSpawnstatic => pure none
  | some .svcTempEntity => do
    parseTempEntity msg
    pure none
  | some .svcKilledmonster => pure none
  | some .svcFoundsecret => pure none
  | some .svcUpdatestat => do
    let _ ← msgReadByte msg
    let _ ← msgReadByte msg
    pure none
  | some .svcUpdatestatlong => do
    let _ ← msgReadByte msg
    let _ ← msgReadLong msg
    pure none
  | some .svcSpawnstaticsound => do
    parseSpawnStaticSound msg
    pure none
  | some .svcCdtrack => do
    let _ ← msgReadByte msg
    pure none
  | some .svcIntermission => pure none
  | some .svcFinale => pure none
  | some .svcSellscreen => pure none
  | some .svcSmallkick => pure none
  | some .svcBigkick => pure none
  | some .svcMuzzleflash => do
    let _ ← msgReadShort msg
    pure none
  | some .svcSetinfo => do
    let _ ← msgReadByte msg
    let _ ← msgReadString msg
    let _ ← msgReadString msg
    pure none
  | some .svcServerinfo => pure none
  | some .svcDownload => do
    parseDownload msg
    pure none
  | some .svcPlayerinfo => do
    parsePlayerinfo msg
    pure none
  | some .svcNails => pure none
  | some .svcNails2 => pure none
  | some .svcChokecount => do
    let _ ← msgReadByte msg
    pure none
  | some .svcModellist => do
    parseModelList msg fuel
    pure none
  | some .svcSoundlist => do
    parseSoundList msg fuel
    pure none
  | some .svcPacketentities => do
    parsePacketEntities msg fuel false
    pure none
  | some .svcDeltapacketentities => pure none
  | some .svcMaxspeed => pure none
  | some .svcEntgravity => pure none
  | some .svcQizmovoice => pure none
  -- not a viable message: svc_bad, svc_setview, svc_setpause and unassigned bytes
  | _ => do
    setAbort
    pure (some ())

/-- `qwc->msg_readcount++` at the end of the message, found at `pos`. -/
def endOfMessage (pos : BitVec 32) (q : QwConnection) : QwConnection :=
  { q with msgReadcount := q.msgReadcount + 1#32 }.log [.endOfMessage pos.toNat]

/-- One pass of the loop of `ParseServerMessage`; `some ()` leaves it. -/
def serverMessagePass (msg : Message) (env : Env) (fuel : Nat) : Parser (Option Unit) := do
  let q ← RunM.get
  if q.msgBadread then do
    setAbort
    pure (some ())
  else do
    let cmd ← msgReadByte msg
    if cmd = -1#32 then do
      RunM.modify (endOfMessage q.msgReadcount)
      pure (some ())
    else do
      RunM.modify (QwConnection.log [.dispatch q.msgReadcount.toNat (cmd.setWidth 8)])
      parseCommand msg env fuel (Svc.ofCode (cmd.setWidth 8))

/-- `ParseServerMessage`. -/
def parseServerMessage (msg : Message) (env : Env) (fuel : Nat) : Parser Unit := do
  RunM.modify fun q => { q with packetCount := q.packetCount + 1#32 }
  parseClientData
  RunM.loop (serverMessagePass msg env fuel) fuel

end QwNet
