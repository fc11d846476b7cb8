import ZeroTierNode.Address
import ZeroTierNode.AdhocPolicy
import ZeroTierNode.Armor
import ZeroTierNode.BroadcastPaths
import ZeroTierNode.BufferBounds
import ZeroTierNode.ConfigArrays
import ZeroTierNode.ConfigAssembly
import ZeroTierNode.ConfigChunks
import ZeroTierNode.ConfigDelivery
import ZeroTierNode.ConfigDictionary
import ZeroTierNode.ConfigPersistence
import ZeroTierNode.ConfigRejection
import ZeroTierNode.ConfigRollback
import ZeroTierNode.ConfigSlots
import ZeroTierNode.CredentialCodec
import ZeroTierNode.CredentialDelivery
import ZeroTierNode.CredentialFreshness
import ZeroTierNode.CredentialPackets
import ZeroTierNode.CredentialPush
import ZeroTierNode.CredentialSignatures
import ZeroTierNode.Credentials
import ZeroTierNode.DeferredCredentials
import ZeroTierNode.Dictionary
import ZeroTierNode.DictionaryArray
import ZeroTierNode.DirectPaths
import ZeroTierNode.Encapsulation
import ZeroTierNode.EncryptedHello
import ZeroTierNode.Filter
import ZeroTierNode.FilterDrops
import ZeroTierNode.FilterNegation
import ZeroTierNode.FilterSets
import ZeroTierNode.FragmentDelivery
import ZeroTierNode.FragmentLimits
import ZeroTierNode.FragmentRoundTrip
import ZeroTierNode.FrameBounds
import ZeroTierNode.FrameReads
import ZeroTierNode.Frames
import ZeroTierNode.Hashtable
import ZeroTierNode.HashtableRuns
import ZeroTierNode.Hello
import ZeroTierNode.HelloRoundTrip
import ZeroTierNode.IdentityParsing
import ZeroTierNode.IdentityPersistence
import ZeroTierNode.InetAddress
import ZeroTierNode.IntegerRanges
import ZeroTierNode.IpOwnership
import ZeroTierNode.Library.Arrays
import ZeroTierNode.Library.BitFields
import ZeroTierNode.Library.Buckets
import ZeroTierNode.Library.Bytes
import ZeroTierNode.Library.Coverage
import ZeroTierNode.Library.Entries
import ZeroTierNode.Library.Exits
import ZeroTierNode.Library.Flooding
import ZeroTierNode.Library.OrderedArrays
import ZeroTierNode.Library.OrderedMaps
import ZeroTierNode.Library.Packing
import ZeroTierNode.Library.Probing
import ZeroTierNode.Library.Readings
import ZeroTierNode.Library.Records
import ZeroTierNode.Library.Rings
import ZeroTierNode.Library.RuleSets
import ZeroTierNode.Library.Runs
import ZeroTierNode.Library.Slots
import ZeroTierNode.Library.Sorting
import ZeroTierNode.Library.Stamps
import ZeroTierNode.Library.Stores
import ZeroTierNode.Membership
import ZeroTierNode.MembershipAgreement
import ZeroTierNode.MulticastDelivery
import ZeroTierNode.MulticastGather
import ZeroTierNode.MulticastLikes
import ZeroTierNode.MulticastMembers
import ZeroTierNode.Network
import ZeroTierNode.NetworkConfig
import ZeroTierNode.NetworkGate
import ZeroTierNode.NodeRuns
import ZeroTierNode.OnlineStatus
import ZeroTierNode.Packet
import ZeroTierNode.PeerBinding
import ZeroTierNode.PeerPaths
import ZeroTierNode.PortRanges
import ZeroTierNode.RateGates
import ZeroTierNode.ReplyMatching
import ZeroTierNode.RevocationFlood
import ZeroTierNode.RevocationThresholds
import ZeroTierNode.RuleCodec
import ZeroTierNode.RxAuthentication
import ZeroTierNode.RxQueue
import ZeroTierNode.RxReassembly
import ZeroTierNode.SelfAwareness
import ZeroTierNode.StateStore
import ZeroTierNode.ThingArrays
import ZeroTierNode.Topology
import ZeroTierNode.TransmitQueue
import ZeroTierNode.TrustExpiration
import ZeroTierNode.TrustedPaths
import ZeroTierNode.WhoisBatch
import ZeroTierNode.WireForms
import ZeroTierNode.WorldCodec
import ZeroTierNode.WorldTrust
import ZeroTierNode.Library.Quotas
import ZeroTierNode.ContactLimits
import ZeroTierNode.Keepalive
import ZeroTierNode.Library.Minima
import ZeroTierNode.PathSelection
import ZeroTierNode.Introduction
import ZeroTierNode.BridgeSpam
import ZeroTierNode.UpstreamContact
import ZeroTierNode.IdentityCodec
import ZeroTierNode.Compression
import ZeroTierNode.Library.Batches
import ZeroTierNode.PeerCache
import ZeroTierNode.MulticastAnnouncements
import ZeroTierNode.Library.OrderedSets
import ZeroTierNode.Subscriptions
import ZeroTierNode.Library.Tallies
import ZeroTierNode.BridgeRoutes
import ZeroTierNode.Library.Shifts
import ZeroTierNode.Prefixes
import ZeroTierNode.PathChecks
import ZeroTierNode.AddressCodec
import ZeroTierNode.Library.OnesComplement
import ZeroTierNode.NdpEmulation
import ZeroTierNode.LocalAuthorizations
import ZeroTierNode.DictionaryReads
import ZeroTierNode.PathIdentity
import ZeroTierNode.Library.StreamBuffers
import ZeroTierNode.AesCtr
import ZeroTierNode.Library.BlockCiphers
import ZeroTierNode.AesBlock
import ZeroTierNode.Library.BinaryPolynomials
import ZeroTierNode.GfMul
import ZeroTierNode.Gmac
import ZeroTierNode.GmacSiv
import ZeroTierNode.PayloadWalk
import ZeroTierNode.Library.BackReferences
import ZeroTierNode.Library.CheckedCode
import ZeroTierNode.Lz4Blocks
import ZeroTierNode.Lz4Decompress
import ZeroTierNode.Lz4Compress
import ZeroTierNode.Lz4Packets
import ZeroTierNode.Library.LittleEndian
import ZeroTierNode.Poly1305
import ZeroTierNode.Salsa20
import ZeroTierNode.ArmorMemory
import ZeroTierNode.RelayNetwork
import ZeroTierNode.Sha512
import ZeroTierNode.RelayedDelivery
