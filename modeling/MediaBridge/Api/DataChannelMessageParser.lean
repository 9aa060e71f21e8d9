import MediaBridge.Utils.SimpleJson

set_option autoImplicit false

/-! # Data-channel messages: `api::DataChannelMessageParser`

A client's data-channel string message is read with `SimpleJson` and values are copied out of
it into fixed buffers: `getMinUplinkBitrate` reads `bitrateKbps` with `getInt`, whose buffer
holds 33 bytes, and `MixerManager::sctpReceived` copies the first pinned endpoint of a pin
message with `getString` into `char endpointId[45]`. Both copy the token whole, whatever its
length: `getMinUplinkBitrateBuffer_length` gives the bytes written for every run of digits.
-/

namespace MediaBridge.Api

open Utils SimpleJson

namespace DataChannelMessageParser

variable (text : List Char) (messageJson : SimpleJson)

/-- `isLegacyApi(messageJson)`. -/
def isLegacyApi : Bool := messageJson.«exists» text "colibriClass".toList

/-- `isPinnedEndpointsChanged(messageJson)`. -/
def isPinnedEndpointsChanged : Bool :=
  if isLegacyApi text messageJson then
    (find text messageJson "colibriClass".toList).strcmpEq text
      "PinnedEndpointsChangedEvent".toList
  else
    let typeItem := find text messageJson "type".toList
    if typeItem.type == .none then false
    else typeItem.strcmpEq text "PinnedEndpointsChanged".toList

/-- `getPinnedEndpoint(messageJson)`: `pinnedEndpoints` in either API. -/
def getPinnedEndpoint : SimpleJson := find text messageJson "pinnedEndpoints".toList

/-- The bytes `getMinUplinkBitrate(messageJson)`, that is `json["bitrateKbps"].getInt(100000)`,
writes into the 33-byte buffer of `getInt`. -/
def getMinUplinkBitrateBuffer : List Char :=
  getIntBuffer text (find text messageJson "bitrateKbps".toList)

/-- The bytes the pin branch of `MixerManager::sctpReceived` writes into `endpointId`: the
first element of `pinnedEndpoints`, copied by `getString`; nothing for another message or when
the message unpins. -/
def pinnedEndpointIdWrite : List Char :=
  if isPinnedEndpointsChanged text messageJson then
    let pinnedEndpoints := getPinnedEndpoint text messageJson
    if pinnedEndpoints.type == .none then []
    else (getStringInto text ((getArray text pinnedEndpoints).front text)).2
  else []

/-- `endpointId` in `MixerManager::sctpReceived`. -/
def endpointIdSize : Nat := 45

/-- `_buffer` in `SimpleJson::getInt`. -/
def getIntBufferSize : Nat := 33

/-- **The whole number is copied.** For every run of digits, `{"bitrateKbps":digits}` makes
`getMinUplinkBitrate` write the digits and a terminator into `getInt`'s buffer. -/
theorem getMinUplinkBitrateBuffer_length {ds : List Char} (hne : ds ≠ [])
    (hds : ∀ x ∈ ds, x.isDigit = true) :
    (getMinUplinkBitrateBuffer
      ('\x7b' :: '"' :: ("bitrateKbps".toList ++ '"' :: ':' :: (ds ++ ['\x7d'])))
      (createText
        ('\x7b' :: '"' :: ("bitrateKbps".toList ++ '"' :: ':' :: (ds ++ ['\x7d']))))).length =
      ds.length + 1 := by
  have hfind := @find_single_digits
    ('\x7b' :: '"' :: ("bitrateKbps".toList ++ '"' :: ':' :: (ds ++ ['\x7d']))) _ _
    rfl (by decide) (by decide) (by decide) hne hds
  rw [getMinUplinkBitrateBuffer, hfind, length_getIntBuffer _ rfl]
  simp [JsonToken.size, hne]

/-- A bitrate of 40 digits overflows `getInt`'s buffer, and a pinned endpoint id of 60
characters overflows `endpointId`. -/
theorem data_channel_copies_overflow :
    getIntBufferSize < (getMinUplinkBitrateBuffer
      ("\x7b\"type\":\"min-uplink-bitrate\",\"bitrateKbps\":".toList ++ List.replicate 40 '1' ++
        ['\x7d'])
      (createText ("\x7b\"type\":\"min-uplink-bitrate\",\"bitrateKbps\":".toList ++
        List.replicate 40 '1' ++ ['\x7d']))).length ∧
    endpointIdSize < (pinnedEndpointIdWrite
      ("\x7b\"colibriClass\":\"PinnedEndpointsChangedEvent\",\"pinnedEndpoints\":[\"".toList ++
        List.replicate 60 'a' ++ "\"]\x7d".toList)
      (createText
        ("\x7b\"colibriClass\":\"PinnedEndpointsChangedEvent\",\"pinnedEndpoints\":[\"".toList ++
          List.replicate 60 'a' ++ "\"]\x7d".toList))).length := by
  decide +kernel

end DataChannelMessageParser

end MediaBridge.Api
