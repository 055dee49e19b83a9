import BeLa.Client

/-!
The packet path of the VNF: the table of channel types, the table of clients, one
for each pipeline thread, and `cgnat_accelerate`, which offloads a flow through
the channel of its thread and reconnects it once when it is lost. The channel
descriptors that are open are part of the state.
-/
namespace BeLa.Accelerate

open LittleEndian Stops BeLa.Flow Context Client

/-- The size of the field `type` of `struct acc_vsocket_type`. -/
def typeSize : ℕ := 32

/-- The functions behind a channel type; `acc_channel_vsocket.c` has the only ones. -/
inductive VsocketOps
  | accChannel
  deriving DecidableEq, Repr

structure AccVsocketType where
  type : List.Vector Byte typeSize
  ops : Option VsocketOps
  deriving DecidableEq

def AccVsocketType.zero : AccVsocketType := ⟨⟨List.replicate typeSize 0, by simp⟩, none⟩

def AccVsocketType.name (vsocketType : AccVsocketType) : Bytes := cString vsocketType.type.toList

def AccVsocketType.used (vsocketType : AccVsocketType) : Bool := vsocketType.name ≠ []

def accClientMaxSize : ℕ := 32

/-- `_acc_vsocket_get_by_name`: the first entry in use for which `strcmp` is not 0. -/
def accVsocketGetByName (types : List AccVsocketType) (name : Bytes) : Option ℕ :=
  types.findIdx? fun entry => entry.used ∧ cString name ≠ entry.name

def accVsocketTypeGetLastIdx (types : List AccVsocketType) : Option ℕ :=
  types.findIdx? fun entry => ¬ entry.used

def accGetVsocketTypeByName (types : List AccVsocketType) (name : Bytes) :
    Option AccVsocketType :=
  (accVsocketGetByName types name).bind (types[·]?)

def accGetFirstVsocketType (types : List AccVsocketType) : Option AccVsocketType :=
  types.head?.filter (·.used)

/-- `acc_vsocket_type_register`; true is 0. -/
def accVsocketTypeRegister (vsocketType : AccVsocketType) (types : List AccVsocketType) :
    Bool × List AccVsocketType :=
  match accGetVsocketTypeByName types vsocketType.type.toList with
  | some _ => (false, types)
  | none =>
    match accVsocketTypeGetLastIdx types with
    | none => (false, types)
    | some idx => (true, types.set idx vsocketType)

def virtioChannel : AccVsocketType where
  type := ⟨[0x76, 0x69, 0x72, 0x74, 0x69, 0x6F, 0x2D, 0x63, 0x68, 0x61, 0x6E, 0x6E, 0x65, 0x6C] ++
    List.replicate 18 0, rfl⟩
  ops := some .accChannel

def accVsocketUnixRegister (types : List AccVsocketType) : Bool × List AccVsocketType :=
  accVsocketTypeRegister virtioChannel types

/-- `struct acc_client`; 0 is the null pointer of its id and of its handle. -/
structure AccClient where
  id : ℕ
  handle : ℕ
  socket : Option AccVsocketType
  deriving DecidableEq

def AccClient.zero : AccClient := ⟨0, 0, none⟩

/-- The VNF: `s_acc_vsocket_types`, `s_acc_client`, and the descriptors that
`acc_channel_open` has returned and `acc_channel_close` has not closed. -/
structure Vnf where
  types : List AccVsocketType
  clients : List AccClient
  channels : List ℕ
  deriving DecidableEq

/-- The VNF after the constructor of the channel module has run. -/
def Vnf.start : Vnf where
  types := (accVsocketUnixRegister (List.replicate accClientMaxSize .zero)).2
  clients := List.replicate accClientMaxSize .zero
  channels := []

def Vnf.client (s : Vnf) (i : ℕ) : AccClient := s.clients.getD i .zero

/-- `_acc_client_get_by_id`: the search ends at the first free entry. -/
def accClientGetById (id : ℕ) (clients : List AccClient) : Option ℕ :=
  (clients.takeWhile fun client => client.id ≠ 0).findIdx? fun client => client.id = id

def accClientGetLastIdx (clients : List AccClient) : Option ℕ :=
  clients.findIdx? fun client => client.id = 0

/-- `acc_client_add`; the result is the index of the new client. -/
def accClientAdd (id : ℕ) (socketType : Option Bytes) (s : Vnf) : Option ℕ × Vnf :=
  match accClientGetLastIdx s.clients with
  | none => (none, s)
  | some idx =>
    let (socket, types) :=
      match socketType with
      | some name => (accGetVsocketTypeByName s.types name, s.types)
      | none =>
        let types := (accVsocketUnixRegister s.types).2
        (accGetFirstVsocketType types, types)
    match socket with
    | none => (none, { s with types := types })
    | some socket =>
      (some idx, { s with types := types, clients := s.clients.set idx ⟨id, 0, some socket⟩ })

def accClientRegister (id : ℕ) (s : Vnf) : Option ℕ × Vnf :=
  match accClientGetById id s.clients with
  | some idx => (some idx, s)
  | none => accClientAdd id none s

def accClientIsConnected (client : AccClient) : Bool := client.handle ≠ 0

/-- What one `acc_channel_connect` meets: the descriptor that `acc_channel_open` returns, unless
it is negative, the host name, unless `gethostname` fails, and the channel itself. -/
structure ConnectRun where
  fd : Option ℕ
  hostname : Option Bytes
  link : Link

/-- `acc_channel_connect`: the handle it returns, and the descriptors open afterwards. -/
def accChannelConnectHandle (run : ConnectRun) (channels : List ℕ) :
    Except Stop (ℕ × List ℕ) :=
  match run.fd with
  | none => .ok (0, channels)
  | some fd =>
    match accChannelConnect true run.hostname run.link with
    | .error stop => .error stop
    | .ok true => .ok (fd, fd :: channels)
    | .ok false => .ok (0, (fd :: channels).erase fd)

/-- `acc_client_connect`: the new handle is returned, and takes the place of the old one. -/
def accClientConnect (run : ConnectRun) (i : ℕ) (s : Vnf) : Except Stop (ℕ × Vnf) :=
  match (s.client i).socket with
  | none => .error .nullDeref
  | some socket =>
    match socket.ops with
    | none => .error .nullCall
    | some .accChannel =>
      match accChannelConnectHandle run s.channels with
      | .error stop => .error stop
      | .ok (handle, channels) =>
        .ok (handle, { s with
          clients := s.clients.set i { s.client i with handle := handle }
          channels := channels })

def accClientAddFlows (client : AccClient) (flows : List AccFlow) (link : Link) :
    Except Stop ErrorCode :=
  if ¬ accClientIsConnected client then .error (.assertion .accClientAddFlows)
  else
    match client.socket with
    | none => .error .nullDeref
    | some socket =>
      match socket.ops with
      | none => .error .nullCall
      | some .accChannel => accChannelAddFlows flows link

/-- A call of `cgnat_accelerate`: its arguments, and what its attempts meet. -/
structure Call where
  id : ℕ
  flow : AccFlow
  /-- the channel in the first `add_flows` -/
  first : Link
  connect : ConnectRun
  /-- the channel in the `add_flows` behind the reconnect -/
  second : Link

/-- `cgnat_accelerate`: whether it returns 1. -/
def cgnatAccelerate (call : Call) (s : Vnf) : Except Stop (Bool × Vnf) :=
  if call.id = 0 then .error (.assertion .cgnatAccelerate)
  else
    match accClientRegister call.id s with
    | (none, _) => .error (.assertion .cgnatAccelerate)
    | (some i, s) =>
      let ret :=
        if accClientIsConnected (s.client i)
        then accClientAddFlows (s.client i) [call.flow] call.first
        else .ok .disconnect
      match ret with
      | .error stop => .error stop
      | .ok ret =>
        if ret = .disconnect then
          match accClientConnect call.connect i s with
          | .error stop => .error stop
          | .ok (handle, s) =>
            if handle = 0 then .ok (false, s)
            else
              match accClientAddFlows (s.client i) [call.flow] call.second with
              | .error stop => .error stop
              | .ok ret => .ok (ret = .flowsAccept, s)
        else .ok (ret = .flowsAccept, s)

def vnfStep (s : Vnf) (call : Call) : Except Stop Vnf :=
  match cgnatAccelerate call s with
  | .error stop => .error stop
  | .ok (_, s') => .ok s'

end BeLa.Accelerate
