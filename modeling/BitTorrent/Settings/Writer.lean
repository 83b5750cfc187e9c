import BitTorrent.Json.Writer
import BitTorrent.Settings

/-! Settings as JSON, under the names by which they are read. -/

set_option autoImplicit false

namespace BitTorrent

instance : ToJson PiecePolicy where
  toJson policy := policy.text

instance : ToJson CorruptionPolicy where
  toJson policy := policy.text

instance : ToJson Settings where
  toJson settings := .record [("listen_port", settings.listenPort),
    ("max_connections", settings.maxConnections),
    ("connect_timeout_secs", settings.connectTimeoutSecs),
    ("handshake_timeout_secs", settings.handshakeTimeoutSecs),
    ("keepalive_interval_secs", settings.keepaliveIntervalSecs),
    ("idle_timeout_secs", settings.idleTimeoutSecs), ("pipeline_depth", settings.pipelineDepth),
    ("piece_policy", settings.piecePolicy), ("corruption_policy", settings.corruptionPolicy),
    ("end_game", settings.endGame), ("download_limit", settings.downloadLimit),
    ("upload_limit", settings.uploadLimit), ("peer_download_limit", settings.peerDownloadLimit),
    ("peer_upload_limit", settings.peerUploadLimit),
    ("sample_interval_ms", settings.sampleIntervalMs),
    ("max_frame_length", settings.maxFrameLength)]

end BitTorrent
